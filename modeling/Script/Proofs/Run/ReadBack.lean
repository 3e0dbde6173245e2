import Script.Proofs.Printing.Data
import Script.Proofs.Run.TwoPhase

/-!
# Data is read back from its text

The text of an array that is data is a program.  Running it makes a new array that is equal to the
first one: the text is a literal of the tree of the array, and evaluating the literal builds
containers with the same tree.  Shared containers are built once for each place where they stand.

## Main definitions

* `Namespace.ReadsBack`: the text of a value is a program that makes an equal one.

## Main results

* `Datum.eval`: a literal evaluates to its tree.
* `array_reads_back`: every array that is data is read back from its text.
-/

namespace Script

namespace Dict

variable {α : Type}

/-- A new key stands last. -/
theorem write_of_notMem {key : String} {value : α} {entries : List (String × α)}
    (h : key ∉ entries.map Prod.fst) : write key value entries = entries ++ [(key, value)] := by
  induction entries with
  | nil => rfl
  | cons e entries ih =>
    obtain ⟨k, v⟩ := e
    rw [List.map_cons, List.mem_cons, not_or] at h
    rw [write, if_neg (Ne.symm h.1), ih h.2, List.cons_append]

/-- Entries with different keys are all kept, in their order. -/
theorem entries_insertAll {d : Dict α} {ws : List (String × α)}
    (h : ((d.entries ++ ws).map Prod.fst).Nodup) : (d.insertAll ws).entries = d.entries ++ ws := by
  induction ws generalizing d with
  | nil => exact (List.append_nil _).symm
  | cons w ws ih =>
    have hkey : w.1 ∉ d.entries.map Prod.fst := by
      intro hmem
      rw [List.map_append, List.map_cons, List.nodup_append] at h
      exact h.2.2 _ hmem _ List.mem_cons_self rfl
    have hentries : (d.insert w.1 w.2).entries = d.entries ++ [w] := write_of_notMem hkey
    have hrest := ih (d := d.insert w.1 w.2) (by rw [hentries, List.append_assoc]; exact h)
    rw [hentries, List.append_assoc] at hrest
    exact hrest

end Dict

namespace Store

variable {σ τ : Store}

theorem unfolds_newArray {ds : List Datum} {vs : List Value} (h : σ.UnfoldsAll ds vs) :
    (σ.newArray vs.toArray).2.Unfolds (.array ds) (.array (σ.newArray vs.toArray).1) := by
  have hitems : ((σ.newArray vs.toArray).2.array (σ.newArray vs.toArray).1).toList = vs := by
    simp [array, newArray]
  rw [Unfolds]
  refine ⟨_, rfl, by simp [newArray], ?_⟩
  rw [hitems]
  exact UnfoldsAll.mono (extends_newArray σ _) ds h

theorem unfolds_newMap {es : List (Key × Datum)} {vs : List (String × Value)}
    (h : σ.UnfoldsEntries es vs) (hkeys : (es.map fun e => e.1.text).Nodup) :
    (σ.newMap (Dict.empty.insertAll vs)).2.Unfolds (.map es)
      (.map (σ.newMap (Dict.empty.insertAll vs)).1) := by
  have hentries : (Dict.empty.insertAll vs).entries = vs :=
    Dict.entries_insertAll (d := .empty) (by rw [← h.keys_eq] at hkeys; exact hkeys)
  have hmap : ((σ.newMap (Dict.empty.insertAll vs)).2.map
      (σ.newMap (Dict.empty.insertAll vs)).1).entries = vs := by
    rw [← hentries]
    simp [map, newMap, hentries]
  rw [Unfolds]
  refine ⟨_, rfl, by simp [newMap], ?_⟩
  rw [hmap]
  exact UnfoldsEntries.mono (extends_newMap σ _) es h

end Store

namespace Datum

/-! ## Evaluating literals -/

/-- The literal evaluates to the value and makes the second store of the first one.  Neither the
rest of the machine nor the bound plays a part, if the bound is not less than the size of the
tree. -/
def Builds (d : Datum) (σ : Store) (w : Value) (τ : Store) : Prop :=
  ∀ fuel, sizeOf d ≤ fuel → ∀ m : Machine, m.store = σ →
    evalExpr fuel d.expr m = .ok w { m with store := τ }

/-- One level of the literal gives the value. -/
theorem builds_of_evalWith {d : Datum} {σ τ : Store} {w : Value}
    (h : ∀ fuel, sizeOf d ≤ fuel + 1 → ∀ m : Machine, m.store = σ →
      d.expr.evalWith (evalExpr fuel) (execStmt fuel) m = .ok w { m with store := τ }) :
    Builds d σ w τ := by
  intro fuel hfuel m hm
  cases fuel with
  | zero =>
    have hpos : 0 < sizeOf d := by
      cases d <;> simp only [undefined.sizeOf_spec, boolean.sizeOf_spec, number.sizeOf_spec,
        text.sizeOf_spec, array.sizeOf_spec, map.sizeOf_spec] <;> omega
    omega
  | succ fuel =>
    rw [evalExpr]
    exact h fuel hfuel m hm

/-- An array literal puts the values of its items into a new array. -/
theorem builds_array {ds : List Datum} {σ τ : Store} {ws : List Value}
    (h : ∀ fuel, sizeOf ds ≤ fuel → ∀ m : Machine, m.store = σ →
      Eval.evalAll (evalExpr fuel) (itemExprs ds) m = .ok ws { m with store := τ }) :
    Builds (array ds) σ (.array (τ.newArray ws.toArray).1) (τ.newArray ws.toArray).2 := by
  refine builds_of_evalWith fun fuel hfuel m hm => ?_
  simp only [array.sizeOf_spec] at hfuel
  rw [expr, Expr.evalWith]
  simp only [bind, EStateM.bind, h fuel (by omega) m hm]
  rfl

mutual

/-- **A literal evaluates to its tree**, in new containers, if the tree is that of a value. -/
theorem eval {σ₀ : Store} : (d : Datum) → {v : Value} → σ₀.Unfolds d v → (σ : Store) →
    ∃ w τ, Builds d σ w τ ∧ σ.Extends τ ∧ τ.Unfolds d w
  | undefined, _, _, σ => by
    refine ⟨.undefined, σ, builds_of_evalWith ?_, .refl σ, by rw [Store.Unfolds]⟩
    rintro fuel - m rfl
    rw [expr]
    rfl
  | boolean b, _, _, σ => by
    refine ⟨.boolean b, σ, builds_of_evalWith ?_, .refl σ, by rw [Store.Unfolds]⟩
    rintro fuel - m rfl
    rw [expr]
    rfl
  | number n hn, _, _, σ => by
    refine ⟨.number (Float.ofScientific n false 0), σ, builds_of_evalWith ?_, .refl σ, ?_⟩
    · rintro fuel - m rfl
      rw [expr]
      rfl
    · rw [Store.Unfolds]
      exact ⟨_, rfl, Number.toNat?_ofScientific (Nat.lt_trans hn (by decide))⟩
  | text s _, _, _, σ => by
    refine ⟨.text s, σ, builds_of_evalWith ?_, .refl σ, by rw [Store.Unfolds]⟩
    rintro fuel - m rfl
    rw [expr]
    rfl
  | array ds, _, hv, σ => by
    rw [Store.Unfolds] at hv
    obtain ⟨a, -, -, hds⟩ := hv
    obtain ⟨ws, τ, heval, hextends, hws⟩ := eval_items ds hds σ
    exact ⟨_, _, builds_array heval, hextends.trans (τ.extends_newArray _), τ.unfolds_newArray hws⟩
  | map es, _, hv, σ => by
    rw [Store.Unfolds] at hv
    obtain ⟨n, -, -, hes⟩ := hv
    -- the keys are those of a map, so no entry of the literal replaces another one
    have hkeys : (es.map fun e => e.1.text).Nodup := by
      rw [← hes.keys_eq]
      exact (σ₀.map n).nodup
    obtain ⟨ws, τ, heval, hextends, hws⟩ := eval_entries es hes σ
    refine ⟨.map (τ.newMap (Dict.empty.insertAll ws)).1, (τ.newMap (Dict.empty.insertAll ws)).2,
      builds_of_evalWith ?_, hextends.trans (τ.extends_newMap _), τ.unfolds_newMap hws hkeys⟩
    intro fuel hfuel m hm
    simp only [map.sizeOf_spec] at hfuel
    rw [expr, Expr.evalWith]
    simp only [bind, EStateM.bind, heval fuel (by omega) m hm]
    rfl

theorem eval_items {σ₀ : Store} : (ds : List Datum) → {vs : List Value} → σ₀.UnfoldsAll ds vs →
    (σ : Store) → ∃ ws τ, (∀ fuel, sizeOf ds ≤ fuel → ∀ m : Machine, m.store = σ →
      Eval.evalAll (evalExpr fuel) (itemExprs ds) m = .ok ws { m with store := τ }) ∧
        σ.Extends τ ∧ τ.UnfoldsAll ds ws
  | [], _, _, σ => by
    refine ⟨[], σ, ?_, .refl σ, by rw [Store.UnfoldsAll]⟩
    rintro fuel - m rfl
    rfl
  | d :: ds, _, hv, σ => by
    rw [Store.UnfoldsAll] at hv
    obtain ⟨v, rest, rfl, hd, hds⟩ := hv
    obtain ⟨w, τ, heval, hextends, hw⟩ := eval d hd σ
    obtain ⟨ws, υ, heval', hextends', hws⟩ := eval_items ds hds τ
    refine ⟨w :: ws, υ, ?_, hextends.trans hextends', ?_⟩
    · intro fuel hfuel m hm
      simp only [List.cons.sizeOf_spec] at hfuel
      rw [itemExprs, Eval.evalAll]
      simp only [bind, EStateM.bind, heval fuel (by omega) m hm,
        heval' fuel (by omega) { m with store := τ } rfl]
      rfl
    · -- the containers of the other items leave the tree of the first one as it is
      rw [Store.UnfoldsAll]
      exact ⟨w, ws, rfl, hw.mono hextends', hws⟩

theorem eval_entries {σ₀ : Store} : (es : List (Key × Datum)) → {vs : List (String × Value)} →
    σ₀.UnfoldsEntries es vs → (σ : Store) →
    ∃ ws τ, (∀ fuel, sizeOf es ≤ fuel → ∀ m : Machine, m.store = σ →
      Eval.evalEntries (evalExpr fuel) (entryExprs es) m = .ok ws { m with store := τ }) ∧
        σ.Extends τ ∧ τ.UnfoldsEntries es ws
  | [], _, _, σ => by
    refine ⟨[], σ, ?_, .refl σ, by rw [Store.UnfoldsEntries]⟩
    rintro fuel - m rfl
    rfl
  | (key, d) :: es, _, hv, σ => by
    rw [Store.UnfoldsEntries] at hv
    obtain ⟨v, rest, rfl, hd, hes⟩ := hv
    obtain ⟨w, τ, heval, hextends, hw⟩ := eval d hd σ
    obtain ⟨ws, υ, heval', hextends', hws⟩ := eval_entries es hes τ
    refine ⟨(key.text, w) :: ws, υ, ?_, hextends.trans hextends', ?_⟩
    · intro fuel hfuel m hm
      simp only [List.cons.sizeOf_spec, Prod.mk.sizeOf_spec] at hfuel
      rw [entryExprs, Eval.evalEntries]
      simp only [bind, EStateM.bind, heval fuel (by omega) m hm,
        heval' fuel (by omega) { m with store := τ } rfl]
      rfl
    · rw [Store.UnfoldsEntries]
      exact ⟨w, ws, rfl, hw.mono hextends', hws⟩

end

/-- An array literal evaluates to a new array. -/
theorem eval_array {σ₀ : Store} {ds : List Datum} {v : Value} (h : σ₀.Unfolds (array ds) v)
    (σ : Store) : ∃ (b : ArrayId) (τ : Store), Builds (array ds) σ (.array b) τ ∧ σ.Extends τ ∧
      σ.arrays.size ≤ b.index ∧ τ.Unfolds (array ds) (.array b) := by
  rw [Store.Unfolds] at h
  obtain ⟨a, -, -, hds⟩ := h
  obtain ⟨ws, τ, heval, hextends, hws⟩ := eval_items ds hds σ
  exact ⟨_, _, builds_array heval, hextends.trans (τ.extends_newArray _), hextends.size_arrays_le,
    τ.unfolds_newArray hws⟩

/-- A literal as a statement. -/
theorem Builds.evaluate {d : Datum} {σ τ : Store} {w : Value} (h : Builds d σ w τ) {fuel : Nat}
    (hfuel : sizeOf d < fuel) {m : Machine} (hm : m.store = σ) :
    (Stmt.expr () d.expr).evaluate fuel m = .ok w { m with store := τ } := by
  obtain ⟨fuel, rfl⟩ : ∃ k, fuel = k + 1 := ⟨fuel - 1, by omega⟩
  rw [Stmt.evaluate, execStmt, Stmt.execWith]
  simp only [bind, EStateM.bind, h fuel (by omega) m hm]
  rfl

end Datum

/-! ## Running the text of a value -/

namespace Pass

variable {ω : Type}

/-- The pass after the value of the last statement was shown to the observer: all is done, unless
the observer failed. -/
def conclude (shown : Except Error Unit × Progress ω) : Except Error Flow × Progress ω :=
  (shown.1.map fun _ => .exhausted, shown.2)

/-- A source with one statement that has a value. -/
theorem runSource_of_single {p : Pass ω} {source : String} {stmt : Stmt Span} {now : Progress ω}
    {value : Value} {m : Machine} (hread : readProgram source = .ok ⟨[stmt], none⟩)
    (hvalue : stmt.erase.evaluate p.fuel (machine now) = .ok value m) :
    p.runSource source now = conclude (p.observe value (resume now m)) := by
  rw [runSource_eq_runStatements, hread]
  show p.runStatements (p.ending none) [stmt.erase] now = _
  rw [runStatements, hvalue]
  rcases hobserve : p.observe value (resume now m) with ⟨e | _, now'⟩
  · simp only [hobserve]
    rfl
  · simp only [hobserve]
    rfl

end Pass

/-- **The text of the array is a program that makes an equal one.**  It is one statement.  Whatever
the pass, if its bound is large enough, the observer is shown one value: an array that was not there
before.  Nothing else changes, and the pass goes on to the end. -/
def Namespace.ReadsBack (ns : Namespace) (a : ArrayId) : Prop :=
  ∃ (stmt : Stmt Span) (b : ArrayId) (σ : Store) (bound : Nat),
    readProgram (ns.store.display (.array a)) = .ok ⟨[stmt], none⟩ ∧
    ns.store.Extends σ ∧ ns.store.arrays.size ≤ b.index ∧
    σ.equal (.array a) (.array b) = true ∧
    ∀ (ω : Type) (p : Pass ω) (sink : Sink) (seen : ω), bound < p.fuel →
      p.runSource (ns.store.display (.array a)) ⟨ns, sink, seen⟩ =
        Pass.conclude (p.observe (.array b) ⟨{ ns with store := σ }, sink, seen⟩)

/-- **Data is read back from its text.** -/
theorem array_reads_back {ns : Namespace} (hns : ns.store.Closed) {a : ArrayId}
    (ha : a.index < ns.store.arrays.size) (hdata : ns.store.IsData (.array a)) :
    ns.ReadsBack a := by
  obtain ⟨ds, hunfolds, hshown⟩ := Store.display_eq_shown hns ha hdata
  obtain ⟨stmt, hread, herase⟩ := Datum.readProgram_shown ds
  obtain ⟨b, σ, hbuilds, hextends, hnew, hunfolds'⟩ := Datum.eval_array hunfolds ns.store
  rw [← hshown] at hread
  refine ⟨stmt, b, σ, sizeOf (Datum.array ds), hread, hextends, hnew, ?_, ?_⟩
  · exact Store.equalWithin_of_unfolds (.array ds) _ _ (hunfolds.mono hextends) hunfolds'
  · intro ω p sink seen hfuel
    have hvalue : stmt.erase.evaluate p.fuel (Pass.machine ⟨ns, sink, seen⟩) =
        .ok (.array b) { Pass.machine ⟨ns, sink, seen⟩ with store := σ } := by
      rw [herase]
      exact hbuilds.evaluate hfuel rfl
    exact Pass.runSource_of_single hread hvalue

/-- Two arrays and a map.  The second array has the map twice, and the first array stands in the
second one and in the map. -/
def sharing : Namespace where
  store :=
    { arrays := #[#[], #[.map ⟨0⟩, .map ⟨0⟩, .array ⟨0⟩, .undefined, .boolean true]]
      maps := #[⟨[("items", .array ⟨0⟩), ("count", .number (Float.ofScientific 12 false 0)),
        ("label", .text "a \"b\"\n\\")], by decide⟩]
      functions := #[]
      scopes := #[⟨none, .empty⟩] }
  root := ⟨0⟩

theorem closed_sharing : sharing.store.Closed := by
  intro v hv
  cases hv with
  | item hitems hv =>
    simp only [sharing, List.mem_toArray, List.mem_cons, List.not_mem_nil, or_false] at hitems
    rcases hitems with rfl | rfl
    · exact absurd hv (Array.not_mem_empty _)
    · simp only [List.mem_toArray, List.mem_cons, List.not_mem_nil, or_false] at hv
      rcases hv with rfl | rfl | rfl | rfl | rfl <;> simp [Store.Has, sharing]
  | entry hentries hv =>
    simp only [sharing, List.mem_toArray, List.mem_singleton] at hentries
    subst hentries
    simp only [List.mem_cons, Prod.mk.injEq, List.not_mem_nil, or_false] at hv
    rcases hv with ⟨-, rfl⟩ | ⟨-, rfl⟩ | ⟨-, rfl⟩ <;> simp [Store.Has, sharing]
  | binding hscope hv =>
    simp only [sharing, List.mem_toArray, List.mem_singleton] at hscope
    subst hscope
    exact absurd hv List.not_mem_nil

theorem isData_sharing : sharing.store.IsData (.array ⟨1⟩) := by
  have hempty : sharing.store.IsData (.array ⟨0⟩) := by
    refine .of_contents trivial fun w hw => ?_
    cases hw with
    | item h => exact absurd h List.not_mem_nil
  have hmap : sharing.store.IsData (.map ⟨0⟩) := by
    have hentries : (sharing.store.map ⟨0⟩).entries = [("items", .array ⟨0⟩),
        ("count", .number (Float.ofScientific 12 false 0)), ("label", .text "a \"b\"\n\\")] := rfl
    refine .of_contents ?_ fun w hw => ?_
    · show ∀ e ∈ (sharing.store.map ⟨0⟩).entries, isName e.1 = true
      decide +kernel
    · cases hw with
      | entry h =>
        rw [hentries] at h
        simp only [List.mem_cons, Prod.mk.injEq, List.not_mem_nil, or_false] at h
        rcases h with ⟨-, rfl⟩ | ⟨-, rfl⟩ | ⟨-, rfl⟩
        · exact hempty
        · exact .of_contents ⟨12, Number.toNat?_ofScientific (by decide), by decide⟩
            fun w hw => nomatch hw
        · refine .of_contents ?_ fun w hw => nomatch hw
          have hall : ("a \"b\"\n\\".toList.all fun c => decide (Text.Legible c)) = true := by
            decide +kernel
          exact fun c hc => of_decide_eq_true (List.all_eq_true.mp hall c hc)
  refine .of_contents trivial fun w hw => ?_
  cases hw with
  | item h =>
    have hitems : (sharing.store.array ⟨1⟩).toList =
        [.map ⟨0⟩, .map ⟨0⟩, .array ⟨0⟩, .undefined, .boolean true] := rfl
    rw [hitems] at h
    simp only [List.mem_cons, List.not_mem_nil, or_false] at h
    rcases h with rfl | rfl | rfl | rfl | rfl
    · exact hmap
    · exact hmap
    · exact hempty
    · exact .of_contents trivial fun w hw => nomatch hw
    · exact .of_contents trivial fun w hw => nomatch hw

/-- Items that are shared, and a text with marks in it. -/
theorem shared_items_read_back :
    sharing.store.IsData (.array ⟨1⟩) ∧ sharing.store.display (.array ⟨1⟩) =
      "[\x7bitems: [], count: 12, label: \"a \\\"b\\\"\\n\\\\\"\x7d, " ++
        "\x7bitems: [], count: 12, label: \"a \\\"b\\\"\\n\\\\\"\x7d, [], undefined, true]" ∧
      sharing.ReadsBack ⟨1⟩ :=
  ⟨isData_sharing, by decide +kernel, array_reads_back closed_sharing (by decide) isData_sharing⟩

end Script
