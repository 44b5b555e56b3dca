/-! Byte ranges of a source text. A span runs from the offset `start` up to, and
without, the offset `stop`; the union of two spans is the least range that holds
both. -/

namespace Contracts

/-- A range of byte offsets; `stop` is the offset after the final byte. -/
structure Span where
  start : Nat
  stop : Nat
deriving DecidableEq

namespace Span

/-- The empty range in front of a text. -/
def origin : Span := ⟨0, 0⟩

/-- The number of bytes covered; a range that runs backwards covers none. -/
def length (s : Span) : Nat := s.stop - s.start

def isEmpty (s : Span) : Bool := s.length == 0

/-- The least range that holds both. -/
def union (s t : Span) : Span := ⟨min s.start t.start, max s.stop t.stop⟩

@[simp] theorem union_start (s t : Span) : (s.union t).start = min s.start t.start := rfl

@[simp] theorem union_stop (s t : Span) : (s.union t).stop = max s.stop t.stop := rfl

theorem union_self (s : Span) : s.union s = s := by
  simp [union]

theorem isEmpty_iff (s : Span) : s.isEmpty = true ↔ s.stop ≤ s.start := by
  simp [isEmpty, length]
  omega

end Span

end Contracts
