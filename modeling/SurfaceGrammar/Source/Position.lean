/-!
# Positions and spans

A position is a byte offset into a source together with the name of the source. A span
runs from one position to another.

* `Position.ofOffset`: a position from an offset of any size.
* `Span.join`: the span from the start of one span to the end of another.
-/

namespace SurfaceGrammar

/-- A byte offset into a named source. An offset has 32 bits. -/
structure Position where
  offset : UInt32
  file : String
deriving DecidableEq, Inhabited

namespace Position

/-- The position at an offset, of which the low 32 bits are kept. -/
def ofOffset (offset : Nat) (file : String) : Position :=
  ⟨UInt32.ofNat offset, file⟩

/-- The position that belongs to no source. -/
def null : Position :=
  ⟨0, "<null>"⟩

/-- The name of the source, a colon and the offset. -/
def text (p : Position) : String :=
  p.file ++ ":" ++ toString p.offset.toNat

@[simp] theorem toNat_offset_ofOffset (offset : Nat) (file : String) :
    (ofOffset offset file).offset.toNat = offset % UInt32.size := by
  simp [ofOffset]

@[simp] theorem file_ofOffset (offset : Nat) (file : String) :
    (ofOffset offset file).file = file := rfl

end Position

/-- A stretch of a source, from the position of its first byte to the position after its
last. -/
structure Span where
  start : Position
  stop : Position
deriving DecidableEq, Inhabited

/-- The span from the start of the first span to the end of the last. -/
def Span.join (first last : Span) : Span :=
  ⟨first.start, last.stop⟩

end SurfaceGrammar
