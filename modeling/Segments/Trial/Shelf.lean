import Segments.Engine.Contents
import Segments.Trial.Damage

/-!
# Attribute stores on their own

A shelf opens an attribute store over contents that outlive it. When an opening fails, no store
is open until the next one succeeds.
-/

namespace Segments

namespace AttributeContents

/-- The contents with the log damaged. -/
def damage (d : Damage) : AttributeContents → AttributeContents
  | index i => index i
  | log b => log (d.apply b)

end AttributeContents

/-- An attribute store that may be closed, over contents that stay. -/
structure Shelf where
  /-- What the last store left behind. -/
  kept : AttributeContents
  /-- The open store. -/
  store : Option AttributeStore
  deriving DecidableEq

namespace Shelf

/-- The present contents. -/
def contents (s : Shelf) : AttributeContents :=
  match s.store with
  | some store => store.contents
  | none => s.kept

/-- Opens a store over contents. -/
def openOver (contents : AttributeContents) : Shelf × Except SegmentError Unit :=
  match contents.openStore with
  | .error e => (⟨contents, none⟩, .error e)
  | .ok (store, _) => (⟨store.contents, some store⟩, .ok ())

/-- Opens a store again over the present contents. -/
def reopen (s : Shelf) : Shelf × Except SegmentError Unit := openOver s.contents

/-- Damages the log, whether a store is open over it or not. -/
def damage (s : Shelf) (d : Damage) : Shelf :=
  let damaged := s.contents.damage d
  ⟨damaged, s.store.map fun store => store.withLog damaged.bytes⟩

end Shelf

end Segments
