import Mathlib.Tactic.SplitIfs
import Script.Eval.Stmt
import Script.Proofs.Outcome

/-!
# Comparing texts

Texts are compared by the bytes of their encodings.  The encoding of a character keeps the order of
scalar values, whatever the lengths of the encodings: the first byte tells the length, a longer
encoding begins with a greater byte, and encodings of one length write the scalar value with its
highest digits first.  So the order of texts is that of their scalar values, and the six comparisons
of a program all speak of this one order.

## Main definitions

* `Text.scalars`: the scalar values of a text.
* `Text.Yields`: what a comparison of two texts comes to in every program.
* `Text.LawfulOrder`: the laws of the comparisons of texts.

## Main results

* `Text.order_eq_scalars`: the order of bytes is the order of scalar values.
* `Text.yields_iff`: each comparison of texts has one result, which depends on the texts only.
* `Text.lawfulOrder`: the laws hold.
-/

namespace Script.Text

/-! ## Encodings of characters -/

section Encoding

variable {c d : Char} {xs ys : List UInt8}

/-- A byte made from a small number comes before another if the number does. -/
theorem compare_byte_eq_lt {x y : Nat} (hx : x < 256) (hy : y < 256) :
    compare (UInt8.ofNat x) (UInt8.ofNat y) = .lt ↔ x < y := by
  rw [Std.compare_eq_lt, UInt8.lt_iff_toNat_lt, UInt8.toNat_ofNat_of_lt' hx,
    UInt8.toNat_ofNat_of_lt' hy]

theorem compare_byte_eq_eq {x y : Nat} (hx : x < 256) (hy : y < 256) :
    compare (UInt8.ofNat x) (UInt8.ofNat y) = .eq ↔ x = y := by
  rw [Std.compare_eq_eq_iff_eq, ← UInt8.toNat_inj, UInt8.toNat_ofNat_of_lt' hx,
    UInt8.toNat_ofNat_of_lt' hy]

/-- Whether one sequence of bytes comes first is decided by their first bytes, or behind them. -/
theorem order_cons_eq_lt {x y : Nat} (hx : x < 256) (hy : y < 256) :
    (UInt8.ofNat x :: xs).compareLex compare (UInt8.ofNat y :: ys) = .lt ↔
      x < y ∨ x = y ∧ xs.compareLex compare ys = .lt := by
  rw [List.compareLex_cons_cons, Ordering.then_eq_lt, compare_byte_eq_lt hx hy,
    compare_byte_eq_eq hx hy]

/-- Of two numbers the smaller one has a smaller digit to the base 64, behind equal ones. -/
theorem digits_of_lt {x y : Nat} (h : x < y) :
    x / 262144 < y / 262144 ∨ x / 262144 = y / 262144 ∧
      (x / 4096 % 64 < y / 4096 % 64 ∨ x / 4096 % 64 = y / 4096 % 64 ∧
        (x / 64 % 64 < y / 64 % 64 ∨ x / 64 % 64 = y / 64 % 64 ∧ x % 64 < y % 64)) := by
  have digit (n m : Nat) (h : n < m) : n / 64 < m / 64 ∨ n / 64 = m / 64 ∧ n % 64 < m % 64 := by
    omega
  have parts (n : Nat) : n / 64 / 64 = n / 4096 ∧ n / 4096 / 64 = n / 262144 := by omega
  have hx := parts x
  have hy := parts y
  have h₁ := digit x y h
  have h₂ := digit (x / 64) (y / 64)
  have h₃ := digit (x / 4096) (y / 4096)
  omega

/-- **A smaller character has a smaller encoding**, whatever follows. -/
theorem order_encoding_of_lt (h : c.toNat < d.toNat) :
    (String.utf8EncodeChar c ++ xs).compareLex compare (String.utf8EncodeChar d ++ ys) = .lt := by
  have hd := d.valid
  simp only [UInt32.isValidChar, Nat.isValidChar] at hd
  unfold Char.toNat at h
  simp only [String.utf8EncodeChar]
  generalize c.val.toNat = x at h
  generalize d.val.toNat = y at h hd
  have hdigits := digits_of_lt h
  have hx : x / 262144 % 8 = x / 262144 := Nat.mod_eq_of_lt (by omega)
  have hy : y / 262144 % 8 = y / 262144 := Nat.mod_eq_of_lt (by omega)
  -- A case for each pair of lengths; the bytes are digits of the scalar values.
  split_ifs <;> simp only [List.cons_append, List.nil_append]
  all_goals simp (disch := omega) only [order_cons_eq_lt]
  all_goals omega

theorem compareLex_swap :
    xs.compareLex compare ys = (ys.compareLex compare xs).swap :=
  @Std.OrientedCmp.eq_swap _ (List.compareLex compare) _ xs ys

/-- The encodings of two characters are ordered by their scalar values, and what follows only counts
behind the same character. -/
theorem order_encoding (c d : Char) :
    (String.utf8EncodeChar c ++ xs).compareLex compare (String.utf8EncodeChar d ++ ys) =
      (compare c.toNat d.toNat).then (xs.compareLex compare ys) := by
  rcases Nat.lt_trichotomy c.toNat d.toNat with h | h | h
  · rw [order_encoding_of_lt h, Nat.compare_eq_lt.2 h, Ordering.lt_then]
  · obtain rfl : c = d := Char.toNat_inj.1 h
    rw [Nat.compare_eq_eq.2 rfl, Ordering.eq_then]
    induction String.utf8EncodeChar c with
    | nil => rfl
    | cons b bs ih => rw [List.cons_append, List.cons_append, List.compareLex_cons_cons,
        Std.compare_self, Ordering.eq_then, ih]
  · rw [compareLex_swap, order_encoding_of_lt h, Nat.compare_eq_gt.2 h, Ordering.gt_then,
      Ordering.swap_lt]

end Encoding

/-! ## The order of scalar values -/

/-- The scalar values of a text. -/
def scalars (s : String) : List Nat := s.toList.map Char.toNat

theorem bytes_eq_flatMap (s : String) : bytes s = s.toList.flatMap String.utf8EncodeChar := by
  rw [bytes, ← String.utf8Encode_toList, List.utf8Encode, List.data_toByteArray]

/-- **The order of texts is that of their scalar values.** -/
theorem order_eq_scalars (s t : String) :
    order s t = (scalars s).compareLex compare (scalars t) := by
  rw [order, bytes_eq_flatMap, bytes_eq_flatMap, scalars, scalars]
  generalize s.toList = cs
  generalize t.toList = ds
  induction cs generalizing ds with
  | nil =>
    cases ds with
    | nil => rfl
    | cons d ds =>
      obtain ⟨b, bs, hbs⟩ := List.exists_cons_of_ne_nil (String.utf8EncodeChar_ne_nil (c := d))
      rw [List.flatMap_cons, hbs]
      rfl
  | cons c cs ih =>
    cases ds with
    | nil =>
      obtain ⟨b, bs, hbs⟩ := List.exists_cons_of_ne_nil (String.utf8EncodeChar_ne_nil (c := c))
      rw [List.flatMap_cons, hbs]
      rfl
    | cons d ds =>
      rw [List.flatMap_cons, List.flatMap_cons, order_encoding, List.map_cons, List.map_cons,
        List.compareLex_cons_cons, ih]

theorem order_swap (s t : String) : order t s = (order s t).swap := compareLex_swap

theorem order_eq_eq_iff {s t : String} : order s t = .eq ↔ s = t := by
  have hbytes : order s t = .eq ↔ bytes s = bytes t :=
    @Std.LawfulEqCmp.compare_eq_iff_eq _ (List.compareLex compare) _ _ _
  rw [hbytes, bytes, bytes, Array.toList_inj, ← ByteArray.ext_iff, String.toByteArray_inj]

theorem order_trans {s t u : String} (hst : order s t = .lt) (htu : order t u = .lt) :
    order s u = .lt := by
  unfold order at *
  exact Std.TransCmp.lt_trans hst htu

/-- A sequence comes before another if it is smaller where they first differ, or ends there. -/
theorem compareLex_eq_lt_iff {α : Type} [Ord α] [LT α] {xs ys : List α}
    (hlt : ∀ x y : α, compare x y = .lt ↔ x < y) (heq : ∀ x y : α, compare x y = .eq ↔ x = y) :
    xs.compareLex compare ys = .lt ↔ List.Lex (· < ·) xs ys := by
  induction xs generalizing ys with
  | nil => cases ys <;> simp [List.compareLex]
  | cons x xs ih =>
    cases ys with
    | nil => simp [List.compareLex]
    | cons y ys =>
      rw [List.compareLex_cons_cons, Ordering.then_eq_lt, hlt, heq, ih, List.cons_lex_cons_iff]

theorem order_eq_lt_iff_bytes {s t : String} :
    order s t = .lt ↔ List.Lex (· < ·) (bytes s) (bytes t) :=
  compareLex_eq_lt_iff (fun _ _ => Std.compare_eq_lt) (fun _ _ => Std.compare_eq_eq_iff_eq)

theorem order_eq_lt_iff_scalars {s t : String} :
    order s t = .lt ↔ List.Lex (· < ·) (scalars s) (scalars t) := by
  rw [order_eq_scalars, compareLex_eq_lt_iff (fun _ _ => Nat.compare_eq_lt)
    (fun _ _ => Nat.compare_eq_eq)]

end Script.Text

namespace Script

/-! ## The comparisons of a program -/

/-- What a comparison asks of the order of its operands. -/
def BinaryOp.test? : BinaryOp → Option (Ordering → Bool)
  | equal => some Ordering.isEq
  | notEqual => some Ordering.isNe
  | less => some Ordering.isLT
  | lessEqual => some Ordering.isLE
  | greater => some Ordering.isGT
  | greaterEqual => some Ordering.isGE
  | _ => none

/-- All comparisons of two texts, those for equality too, depend on the order of the texts only. -/
theorem BinaryOp.apply_text {op : BinaryOp} {test : Ordering → Bool} (h : op.test? = some test)
    (σ : Store) (a b : String) :
    op.apply σ (.text a) (.text b) = .ok (.boolean (test (Text.order a b))) := by
  have hequal : σ.equal (.text a) (.text b) = (Text.order a b).isEq := by
    rw [Store.equal, Store.equalWithin, Bool.eq_iff_iff, beq_iff_eq, Ordering.isEq_iff_eq_eq,
      Text.order_eq_eq_iff]
  cases op with
  | equal =>
    cases h
    rw [BinaryOp.apply, hequal]
  | notEqual =>
    cases h
    rw [BinaryOp.apply, hequal]
    cases Text.order a b <;> rfl
  | less | lessEqual | greater | greaterEqual =>
    cases h
    rfl
  | _ => cases h

namespace Text

open Eval

/-- In every program, a comparison of two operands that come to the texts comes to this answer, and
changes nothing beyond what the operands do. -/
def Yields (op : BinaryOp) (a b : String) (answer : Bool) : Prop :=
  ∀ (fuel : Nat) (left right : Expr Unit) (m₀ m₁ m₂ : Machine),
    evalExpr fuel left m₀ = .ok (.text a) m₁ → evalExpr fuel right m₁ = .ok (.text b) m₂ →
      evalExpr (fuel + 1) (.binary () op left right) m₀ = .ok (.boolean answer) m₂

/-- A comparison of texts comes to what it asks of their order, and to nothing else. -/
theorem yields_iff {op : BinaryOp} {test : Ordering → Bool} (h : op.test? = some test)
    {a b : String} {answer : Bool} : Yields op a b answer ↔ test (order a b) = answer := by
  have hshort : op.shortcut? (.text a) = none := by
    cases op with
    | and | or => cases h
    | _ => rfl
  have heval (fuel : Nat) (left right : Expr Unit) (m₀ m₁ m₂ : Machine)
      (hl : evalExpr fuel left m₀ = .ok (.text a) m₁)
      (hr : evalExpr fuel right m₁ = .ok (.text b) m₂) :
      evalExpr (fuel + 1) (.binary () op left right) m₀ =
        .ok (.boolean (test (order a b))) m₂ := by
    simp only [evalExpr, Expr.evalWith]
    rw [Outcome.bind_of_ok hl]
    simp only [hshort]
    rw [Outcome.bind_of_ok hr]
    change ofExcept (op.apply m₂.store (.text a) (.text b)) m₂ = _
    rw [BinaryOp.apply_text h]
    rfl
  constructor
  · intro hyields
    have m : Machine := ⟨.empty, .unlimited, ⟨0⟩, 0⟩
    have hsame := (heval 1 (.text () a) (.text () b) m m m rfl rfl).symm.trans
      (hyields 1 (.text () a) (.text () b) m m m rfl rfl)
    injection hsame with hvalue
    injection hvalue
  · rintro rfl
    exact heval

/-- **The laws of comparing texts.** -/
structure LawfulOrder : Prop where
  /-- A comparison of texts comes to true or to false. -/
  decided : ∀ op ∈ [BinaryOp.equal, .notEqual, .less, .lessEqual, .greater, .greaterEqual],
    ∀ a b, Yields op a b false ↔ ¬ Yields op a b true
  /-- Of two texts one comes before the other or they are equal, and only one of these. -/
  one_of_three : ∀ a b,
    Yields .less a b true ∧ ¬ Yields .equal a b true ∧ ¬ Yields .less b a true ∨
    ¬ Yields .less a b true ∧ Yields .equal a b true ∧ ¬ Yields .less b a true ∨
    ¬ Yields .less a b true ∧ ¬ Yields .equal a b true ∧ Yields .less b a true
  lessEqual_iff : ∀ a b,
    Yields .lessEqual a b true ↔ Yields .less a b true ∨ Yields .equal a b true
  greater_iff : ∀ a b, Yields .greater a b true ↔ Yields .less b a true
  greaterEqual_iff : ∀ a b,
    Yields .greaterEqual a b true ↔ Yields .greater a b true ∨ Yields .equal a b true
  /-- Equal texts are the same sequence of characters. -/
  equal_iff : ∀ a b, Yields .equal a b true ↔ a = b
  notEqual_iff : ∀ a b, Yields .notEqual a b true ↔ a ≠ b
  trans : ∀ a b c, Yields .less a b true → Yields .less b c true → Yields .less a c true
  /-- The bytes decide. -/
  by_bytes : ∀ a b, Yields .less a b true ↔ List.Lex (· < ·) (bytes a) (bytes b)
  /-- The scalar values decide in the same way. -/
  by_scalars : ∀ a b, Yields .less a b true ↔ List.Lex (· < ·) (scalars a) (scalars b)

theorem yields_less_iff {a b : String} : Yields .less a b true ↔ order a b = .lt := by
  rw [yields_iff rfl, Ordering.isLT_iff_eq_lt]

theorem yields_equal_iff {a b : String} : Yields .equal a b true ↔ a = b := by
  rw [yields_iff rfl, Ordering.isEq_iff_eq_eq, order_eq_eq_iff]

theorem yields_greater_iff {a b : String} : Yields .greater a b true ↔ Yields .less b a true := by
  rw [yields_iff rfl, yields_iff rfl, order_swap a b, Ordering.isLT_swap]

/-- **Texts are in order**: the comparisons of a program agree on one total order of texts, that of
their scalar values. -/
theorem lawfulOrder : LawfulOrder where
  decided := by
    intro op hop a b
    obtain ⟨test, htest⟩ : ∃ test, op.test? = some test := by
      simp only [List.mem_cons, List.not_mem_nil, or_false] at hop
      rcases hop with rfl | rfl | rfl | rfl | rfl | rfl <;> exact ⟨_, rfl⟩
    rw [yields_iff htest, yields_iff htest, Bool.not_eq_true]
  one_of_three := by
    intro a b
    rw [yields_less_iff, yields_less_iff, yields_iff rfl, order_swap a b]
    cases order a b <;> simp
  lessEqual_iff := by
    intro a b
    rw [yields_iff rfl, yields_iff rfl, yields_iff rfl]
    cases order a b <;> simp
  greater_iff _ _ := yields_greater_iff
  greaterEqual_iff := by
    intro a b
    rw [yields_iff rfl, yields_iff rfl, yields_iff rfl]
    cases order a b <;> simp
  equal_iff _ _ := yields_equal_iff
  notEqual_iff := by
    intro a b
    rw [yields_iff rfl, Ordering.isNe_iff_ne_eq, ne_eq, order_eq_eq_iff]
  trans := by
    intro a b c hab hbc
    rw [yields_less_iff] at *
    exact order_trans hab hbc
  by_bytes _ _ := yields_less_iff.trans order_eq_lt_iff_bytes
  by_scalars _ _ := yields_less_iff.trans order_eq_lt_iff_scalars

end Text

end Script
