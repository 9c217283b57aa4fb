import Segments.Engine.Contents
import Segments.Engine.Scheduler

/-!
# Stores in succession

Stores that were opened one after another may all have operations under way. The operations of
all of them go on in one order, that in which they were submitted or woken. At the start those of
an earlier store come first; from there on `order` names, for each operation that is about to be
looked at, the store that it runs on.
-/

namespace Segments

/-- Stores that were opened one after another. -/
structure Succession where
  /-- The contents on which all stores work, unless each has its own. -/
  contents : Option Contents
  /-- The stores, the first one first. -/
  stores : List Scheduler
  /-- The places, among the stores, of those whose operations go on next. -/
  order : List Nat
  /-- What was reported, in order. -/
  events : List Event

namespace Succession

/-- The places of stores, each as often as operations of the store are about to be looked at. -/
def firstOrder (stores : List Scheduler) : List Nat :=
  stores.zipIdx.flatMap fun (s, i) => List.replicate s.ready.length i

/-- Stores, the first one first, with the contents on which all of them work, if they do. -/
def ofStores (contents : Option Contents) (stores : List Scheduler) : Succession where
  contents := contents
  stores := stores.map fun s => { s with events := #[] }
  order := firstOrder stores
  events := stores.flatMap fun s => s.events.toList

/-- Looks at one operation of a store; those that it wakes come last in the order. -/
def stepAt (c : Succession) (i : Nat) : Succession :=
  match c.stores[i]? with
  | none => c
  | some s =>
    let before := s.ready.length
    let s := match c.contents with
      | some contents => { s with engine := s.engine.withContents contents }
      | none => s
    let s := s.step
    { contents := c.contents.map fun _ => s.engine.contents
      stores := c.stores.set i { s with events := #[] }
      order := c.order ++ List.replicate (s.ready.length - (before - 1)) i
      events := c.events ++ s.events.toList }

/-- Looks at the operation that goes on next; a look-up that came back waits until all others
have gone on. -/
def step (c : Succession) : Succession :=
  match c.order with
  | i :: rest => { c with order := rest }.stepAt i
  | [] =>
    match c.stores.findIdx? fun s => !s.isQuiet with
    | some i => c.stepAt i
    | none => c

/-- Whether no operation is about to be looked at. -/
def isQuiet (c : Succession) : Bool := c.stores.all Scheduler.isQuiet

/-- Looks at operations until none goes on, at most `fuel` times. -/
def run : Nat → Succession → Succession
  | 0, c => c
  | fuel + 1, c => if c.isQuiet then c else run fuel c.step

/-- Lets the operations of all stores run until none can go on. -/
def settle (c : Succession) : Succession :=
  run (c.stores.foldl (fun bound s => bound + s.stepBound) 0) c

end Succession

end Segments
