/-!
# Source spans

A span is a stretch of source text, counted in characters from the start of the text.  Tokens and
syntax trees carry one, so that a diagnostic can say where it applies.
-/

namespace Script

/-- The characters from `start` up to, and not including, `stop`. -/
structure Span where
  start : Nat
  stop : Nat
  deriving DecidableEq, Repr

namespace Span

/-- The span that begins where `a` begins and ends where `b` ends. -/
def join (a b : Span) : Span := ⟨a.start, b.stop⟩

/-- The same stretch after `k` characters have been put in front of the text. -/
def shift (k : Nat) (s : Span) : Span := ⟨s.start + k, s.stop + k⟩

/-- A span as diagnostics write it. -/
def describe (s : Span) : String :=
  "[" ++ toString s.start ++ ", " ++ toString s.stop ++ "]"

@[simp] theorem join_start (a b : Span) : (a.join b).start = a.start := rfl

@[simp] theorem join_stop (a b : Span) : (a.join b).stop = b.stop := rfl

@[simp] theorem shift_zero (s : Span) : s.shift 0 = s := rfl

theorem shift_shift (j k : Nat) (s : Span) : (s.shift j).shift k = s.shift (j + k) := by
  simp [shift, Nat.add_assoc]

end Span

end Script
