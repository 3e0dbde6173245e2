import Mathlib.Logic.Relation
import Script.Number.Arithmetic
import Script.Proofs.Eval.Validity
import Script.Proofs.Number.Whole
import Script.Proofs.Printing.Basic
import Script.Proofs.Value.Bounds

/-!
# Data

A value that does not contain itself is a finite tree, even if parts of it are shared: following the
names of its containers comes to an end.  Data are such trees whose leaves have a notation in the
language.  The text of the value is the text of its tree, and two values with the same tree are
equal, whatever containers they are made of.

## Main definitions

* `Datum`: trees of data, and `Datum.shown`, their text.
* `Store.Unfolds`: a value of a store is a tree.
* `Store.IsData`: values that do not contain themselves and have leaves that can be written.
* `Store.Extends`: stores with further containers.

## Main results

* `Store.exists_unfolds`: such a value is a tree, and has the text of the tree.
* `Store.equalWithin_of_unfolds`: values with the same tree are equal.
-/

namespace Script

/-- The character is shown by itself in quotes, or escaped in a way that the language can read. -/
def Text.Legible (c : Char) : Prop :=
  (escapeChar c)[1]? ≠ some '0' ∧ (escapeChar c)[1]? ≠ some 'u'

instance : DecidablePred Text.Legible := fun _ => instDecidableAnd

/-- A text that can stand as a key without quotes. -/
structure Key where
  text : String
  isName : isName text = true

/-- **Trees of data.** -/
inductive Datum where
  | undefined
  | boolean (b : Bool)
  | number (n : Nat) (hn : n < Number.exactLimit)
  | text (s : String) (hs : ∀ c ∈ s.toList, Text.Legible c)
  | array (items : List Datum)
  | map (entries : List (Key × Datum))

namespace Datum

mutual

/-- The text of a tree. -/
def shown : Datum → String
  | undefined => "undefined"
  | boolean b => if b then "true" else "false"
  | number n _ => String.ofList (Number.digitsOf n)
  | text s _ => Text.quote s
  | array items => "[" ++ ", ".intercalate (shownItems items) ++ "]"
  | map entries => "\x7b" ++ ", ".intercalate (shownEntries entries) ++ "\x7d"

/-- The texts of items. -/
def shownItems : List Datum → List String
  | [] => []
  | d :: ds => d.shown :: shownItems ds

/-- The texts of entries. -/
def shownEntries : List (Key × Datum) → List String
  | [] => []
  | (key, d) :: es => (key.text ++ ": " ++ d.shown) :: shownEntries es

end

end Datum

/-- The value that a container is. -/
def Container.value : Container → Value
  | .array a => .array a
  | .map m => .map m

namespace Store

variable {σ τ υ : Store}

/-! ## Values and their trees -/

mutual

/-- **The value is the tree.** -/
def Unfolds (σ : Store) : Datum → Value → Prop
  | .undefined, v => v = .undefined
  | .boolean b, v => v = .boolean b
  | .number n _, v => ∃ x, v = .number x ∧ Number.toNat? x = some n
  | .text s _, v => v = .text s
  | .array ds, v => ∃ a, v = .array a ∧ a.index < σ.arrays.size ∧ UnfoldsAll σ ds (σ.array a).toList
  | .map es, v => ∃ m, v = .map m ∧ m.index < σ.maps.size ∧ UnfoldsEntries σ es (σ.map m).entries

/-- The values are the trees. -/
def UnfoldsAll (σ : Store) : List Datum → List Value → Prop
  | [], vs => vs = []
  | d :: ds, vs => ∃ v rest, vs = v :: rest ∧ Unfolds σ d v ∧ UnfoldsAll σ ds rest

/-- The entries have the given keys, and their values are the trees. -/
def UnfoldsEntries (σ : Store) : List (Key × Datum) → List (String × Value) → Prop
  | [], vs => vs = []
  | (key, d) :: es, vs =>
    ∃ v rest, vs = (key.text, v) :: rest ∧ Unfolds σ d v ∧ UnfoldsEntries σ es rest

end

/-- The keys of entries and of their trees. -/
theorem UnfoldsEntries.keys_eq {es : List (Key × Datum)} {vs : List (String × Value)}
    (h : σ.UnfoldsEntries es vs) : vs.map Prod.fst = es.map fun e => e.1.text := by
  induction es generalizing vs with
  | nil =>
    rw [UnfoldsEntries] at h
    rw [h]
    rfl
  | cons e es ih =>
    rw [UnfoldsEntries] at h
    obtain ⟨v, rest, rfl, -, hrest⟩ := h
    rw [List.map_cons, List.map_cons, ih hrest]

/-! ## Equality -/

mutual

/-- **Values with the same tree are equal**, whatever containers they are made of. -/
theorem equalWithin_of_unfolds : (d : Datum) → (depth : Nat) → (pending : List Comparison) →
    {v w : Value} → σ.Unfolds d v → σ.Unfolds d w → σ.equalWithin depth pending v w = true
  | .undefined, _, _, _, _, hv, hw => by
    rw [Unfolds] at hv hw
    rw [hv, hw, equalWithin]
  | .boolean b, _, _, _, _, hv, hw => by
    rw [Unfolds] at hv hw
    rw [hv, hw, equalWithin]
    exact beq_self_eq_true b
  | .number n _, _, _, _, _, hv, hw => by
    rw [Unfolds] at hv hw
    obtain ⟨x, rfl, hx⟩ := hv
    obtain ⟨y, rfl, hy⟩ := hw
    rw [equalWithin]
    exact Number.beq_of_toNat? hx hy
  | .text s _, _, _, _, _, hv, hw => by
    rw [Unfolds] at hv hw
    rw [hv, hw, equalWithin]
    exact beq_self_eq_true s
  | .array ds, depth, pending, _, _, hv, hw => by
    rw [Unfolds] at hv hw
    obtain ⟨a, rfl, -, ha⟩ := hv
    obtain ⟨b, rfl, -, hb⟩ := hw
    cases depth with
    | zero => rw [equalWithin]
    | succ depth =>
      obtain ⟨hlength, hitems⟩ := equalWithin_of_unfoldsAll ds depth (.arrays a b :: pending) ha hb
      rw [equalWithin]
      split
      · rfl
      · rw [Bool.and_eq_true, beq_iff_eq]
        exact ⟨hlength, hitems⟩
  | .map es, depth, pending, _, _, hv, hw => by
    rw [Unfolds] at hv hw
    obtain ⟨m, rfl, -, hm⟩ := hv
    obtain ⟨n, rfl, -, hn⟩ := hw
    cases depth with
    | zero => rw [equalWithin]
    | succ depth =>
      obtain ⟨hlength, hentries⟩ :=
        equalWithin_of_unfoldsEntries es depth (.maps m n :: pending) hm hn
      rw [equalWithin]
      split
      · rfl
      · rw [Bool.and_eq_true, beq_iff_eq, List.all_eq_true]
        refine ⟨hlength, fun e he => ?_⟩
        obtain ⟨w, hmem, hequal⟩ := hentries e he
        rw [Dict.get?_of_mem hmem]
        exact hequal

theorem equalWithin_of_unfoldsAll : (ds : List Datum) → (depth : Nat) →
    (pending : List Comparison) → {vs ws : List Value} → σ.UnfoldsAll ds vs → σ.UnfoldsAll ds ws →
    vs.length = ws.length ∧ ((vs.zip ws).all fun p => σ.equalWithin depth pending p.1 p.2) = true
  | [], _, _, _, _, hv, hw => by
    rw [UnfoldsAll] at hv hw
    rw [hv, hw]
    exact ⟨rfl, rfl⟩
  | d :: ds, depth, pending, _, _, hv, hw => by
    rw [UnfoldsAll] at hv hw
    obtain ⟨v, vs, rfl, hd, hds⟩ := hv
    obtain ⟨w, ws, rfl, hd', hds'⟩ := hw
    obtain ⟨hlength, hrest⟩ := equalWithin_of_unfoldsAll ds depth pending hds hds'
    refine ⟨congrArg (· + 1) hlength, ?_⟩
    rw [List.zip_cons_cons, List.all_cons, Bool.and_eq_true]
    exact ⟨equalWithin_of_unfolds d depth pending hd hd', hrest⟩

theorem equalWithin_of_unfoldsEntries : (es : List (Key × Datum)) → (depth : Nat) →
    (pending : List Comparison) → {vs ws : List (String × Value)} → σ.UnfoldsEntries es vs →
    σ.UnfoldsEntries es ws → vs.length = ws.length ∧
      ∀ e ∈ vs, ∃ w, (e.1, w) ∈ ws ∧ σ.equalWithin depth pending e.2 w = true
  | [], _, _, _, _, hv, hw => by
    rw [UnfoldsEntries] at hv hw
    rw [hv, hw]
    exact ⟨rfl, fun e he => nomatch he⟩
  | (key, d) :: es, depth, pending, _, _, hv, hw => by
    rw [UnfoldsEntries] at hv hw
    obtain ⟨v, vs, rfl, hd, hes⟩ := hv
    obtain ⟨w, ws, rfl, hd', hes'⟩ := hw
    obtain ⟨hlength, hrest⟩ := equalWithin_of_unfoldsEntries es depth pending hes hes'
    refine ⟨congrArg (· + 1) hlength, fun e he => ?_⟩
    rcases List.mem_cons.mp he with rfl | he
    · exact ⟨w, List.mem_cons_self, equalWithin_of_unfolds d depth pending hd hd'⟩
    · obtain ⟨u, hu, hequal⟩ := hrest e he
      exact ⟨u, List.mem_cons_of_mem _ hu, hequal⟩

end

/-! ## Further containers -/

/-- `τ` has the containers of `σ`, possibly further ones, and nothing else is different. -/
structure Extends (σ τ : Store) : Prop where
  arrays : ∀ a : ArrayId, a.index < σ.arrays.size →
    a.index < τ.arrays.size ∧ τ.array a = σ.array a
  maps : ∀ m : MapId, m.index < σ.maps.size → m.index < τ.maps.size ∧ τ.map m = σ.map m
  functions : τ.functions = σ.functions
  scopes : τ.scopes = σ.scopes

theorem Extends.refl (σ : Store) : σ.Extends σ :=
  ⟨fun _ h => ⟨h, rfl⟩, fun _ h => ⟨h, rfl⟩, rfl, rfl⟩

theorem Extends.trans (h : σ.Extends τ) (h' : τ.Extends υ) : σ.Extends υ where
  arrays a ha :=
    ⟨(h'.arrays a (h.arrays a ha).1).1, (h'.arrays a (h.arrays a ha).1).2.trans (h.arrays a ha).2⟩
  maps m hm := ⟨(h'.maps m (h.maps m hm).1).1, (h'.maps m (h.maps m hm).1).2.trans (h.maps m hm).2⟩
  functions := h'.functions.trans h.functions
  scopes := h'.scopes.trans h.scopes

theorem Extends.size_arrays_le (h : σ.Extends τ) : σ.arrays.size ≤ τ.arrays.size :=
  Nat.le_of_not_lt fun hless => Nat.lt_irrefl _ (h.arrays ⟨τ.arrays.size⟩ hless).1

theorem extends_newArray (σ : Store) (items : Array Value) : σ.Extends (σ.newArray items).2 where
  arrays a ha := by
    refine ⟨?_, ?_⟩
    · simp only [newArray, Array.size_push]
      omega
    · simp only [array, newArray, Array.getD_eq_getD_getElem?, Array.getElem?_push]
      rw [if_neg (Nat.ne_of_lt ha)]
  maps _ hm := ⟨hm, rfl⟩
  functions := rfl
  scopes := rfl

theorem extends_newMap (σ : Store) (entries : Dict Value) : σ.Extends (σ.newMap entries).2 where
  arrays _ ha := ⟨ha, rfl⟩
  maps m hm := by
    refine ⟨?_, ?_⟩
    · simp only [newMap, Array.size_push]
      omega
    · simp only [map, newMap, Array.getD_eq_getD_getElem?, Array.getElem?_push]
      rw [if_neg (Nat.ne_of_lt hm)]
  functions := rfl
  scopes := rfl

mutual

/-- Further containers do not change the tree of a value. -/
theorem Unfolds.mono (h : σ.Extends τ) : (d : Datum) → {v : Value} → σ.Unfolds d v → τ.Unfolds d v
  | .undefined, _, hv | .boolean _, _, hv | .number _ _, _, hv | .text _ _, _, hv => by
    rw [Unfolds] at hv ⊢
    exact hv
  | .array ds, _, hv => by
    rw [Unfolds] at hv ⊢
    obtain ⟨a, rfl, ha, hds⟩ := hv
    obtain ⟨ha', hsame⟩ := h.arrays a ha
    exact ⟨a, rfl, ha', by rw [hsame]; exact UnfoldsAll.mono h ds hds⟩
  | .map es, _, hv => by
    rw [Unfolds] at hv ⊢
    obtain ⟨m, rfl, hm, hes⟩ := hv
    obtain ⟨hm', hsame⟩ := h.maps m hm
    exact ⟨m, rfl, hm', by rw [hsame]; exact UnfoldsEntries.mono h es hes⟩

theorem UnfoldsAll.mono (h : σ.Extends τ) :
    (ds : List Datum) → {vs : List Value} → σ.UnfoldsAll ds vs → τ.UnfoldsAll ds vs
  | [], _, hv => by
    rw [UnfoldsAll] at hv ⊢
    exact hv
  | d :: ds, _, hv => by
    rw [UnfoldsAll] at hv ⊢
    obtain ⟨v, rest, rfl, hd, hds⟩ := hv
    exact ⟨v, rest, rfl, Unfolds.mono h d hd, UnfoldsAll.mono h ds hds⟩

theorem UnfoldsEntries.mono (h : σ.Extends τ) : (es : List (Key × Datum)) →
    {vs : List (String × Value)} → σ.UnfoldsEntries es vs → τ.UnfoldsEntries es vs
  | [], _, hv => by
    rw [UnfoldsEntries] at hv ⊢
    exact hv
  | (key, d) :: es, _, hv => by
    rw [UnfoldsEntries] at hv ⊢
    obtain ⟨v, rest, rfl, hd, hes⟩ := hv
    exact ⟨v, rest, rfl, Unfolds.mono h d hd, UnfoldsEntries.mono h es hes⟩

end

/-! ## Values that do not contain themselves -/

/-- The second value is an item of the first one, or the value of one of its entries. -/
inductive Contains (σ : Store) : Value → Value → Prop
  | item {a v} (h : v ∈ (σ.array a).toList) : Contains σ (.array a) v
  | entry {m key v} (h : (key, v) ∈ (σ.map m).entries) : Contains σ (.map m) v

/-- The value itself can be written as data, whatever its contents are. -/
def Plain (σ : Store) : Value → Prop
  | .undefined | .boolean _ | .array _ => True
  | .number x => ∃ n, Number.toNat? x = some n ∧ n < Number.exactLimit
  | .text s => ∀ c ∈ s.toList, Text.Legible c
  | .map m => ∀ e ∈ (σ.map m).entries, isName e.1 = true
  | .function _ => False

/-- **Values that are data**: nothing in them contains itself, and everything in them can be
written. -/
structure IsData (σ : Store) (v : Value) : Prop where
  acyclic : ∀ w, Relation.ReflTransGen σ.Contains v w → ¬ Relation.TransGen σ.Contains w w
  plain : ∀ w, Relation.ReflTransGen σ.Contains v w → σ.Plain w

theorem IsData.inside {v w : Value} (h : σ.IsData v) (hw : σ.Contains v w) : σ.IsData w :=
  ⟨fun u hu => h.acyclic u (.head hw hu), fun u hu => h.plain u (.head hw hu)⟩

/-- A value whose contents are data does not stand in one of them. -/
theorem IsData.of_contents {v : Value} (hplain : σ.Plain v)
    (h : ∀ w, σ.Contains v w → σ.IsData w) : σ.IsData v where
  acyclic w hw hcycle := by
    rcases hw.cases_head with rfl | ⟨u, hu, hinside⟩
    · obtain ⟨u, hu, hback⟩ := Relation.TransGen.head'_iff.mp hcycle
      exact (h u hu).acyclic v hback hcycle
    · exact (h u hu).acyclic w hinside hcycle
  plain w hw := by
    rcases hw.cases_head with rfl | ⟨u, hu, hinside⟩
    · exact hplain
    · exact (h u hu).plain w hinside

/-- Values that are trees, with the texts of the trees. -/
theorem exists_unfoldsAll {render : Value → String} {vs : List Value}
    (h : ∀ v ∈ vs, ∃ d, σ.Unfolds d v ∧ render v = d.shown) :
    ∃ ds, σ.UnfoldsAll ds vs ∧ vs.map render = Datum.shownItems ds := by
  induction vs with
  | nil => exact ⟨[], by rw [UnfoldsAll], rfl⟩
  | cons v vs ih =>
    obtain ⟨d, hd, hshown⟩ := h v List.mem_cons_self
    obtain ⟨ds, hds, hshown'⟩ := ih fun w hw => h w (List.mem_cons_of_mem _ hw)
    refine ⟨d :: ds, ?_, ?_⟩
    · rw [UnfoldsAll]
      exact ⟨v, vs, rfl, hd, hds⟩
    · rw [List.map_cons, hshown, hshown', Datum.shownItems]

theorem exists_unfoldsEntries {render : Value → String} {vs : List (String × Value)}
    (h : ∀ e ∈ vs, isName e.1 = true ∧ ∃ d, σ.Unfolds d e.2 ∧ render e.2 = d.shown) :
    ∃ es, σ.UnfoldsEntries es vs ∧
      vs.map (fun e => e.1 ++ ": " ++ render e.2) = Datum.shownEntries es := by
  induction vs with
  | nil => exact ⟨[], by rw [UnfoldsEntries], rfl⟩
  | cons e vs ih =>
    obtain ⟨hname, d, hd, hshown⟩ := h e List.mem_cons_self
    obtain ⟨es, hes, hshown'⟩ := ih fun w hw => h w (List.mem_cons_of_mem _ hw)
    refine ⟨(⟨e.1, hname⟩, d) :: es, ?_, ?_⟩
    · rw [UnfoldsEntries]
      exact ⟨e.2, vs, rfl, hd, hes⟩
    · rw [List.map_cons, hshown, hshown', Datum.shownEntries]

/-- **Data are trees, with the texts of the trees.**  The containers around a value contain it, so
none of them is met again inside. -/
theorem exists_unfolds (hσ : σ.Closed) {depth : Nat} {around : List Container} {v : Value}
    (hv : σ.Has v) (hdata : σ.IsData v)
    (haround : ∀ c ∈ around, Relation.TransGen σ.Contains c.value v)
    (hdepth : σ.containersLeft around < depth) :
    ∃ d, σ.Unfolds d v ∧ σ.render depth around true v = d.shown := by
  induction depth generalizing around v with
  | zero => exact absurd hdepth (Nat.not_lt_zero _)
  | succ depth ih =>
    have hplain := hdata.plain v .refl
    -- a value inside a container that is entered
    have hinside : ∀ {c : Container}, c.value = v → c ∈ σ.containers → ∀ {w : Value},
        σ.Has w → σ.Contains v w →
          ∃ d, σ.Unfolds d w ∧ σ.render depth (c :: around) true w = d.shown := by
      intro c hc hmem w hw hcontains
      have hnew : c ∉ around := fun hold => by
        have hcycle := haround c hold
        rw [hc] at hcycle
        exact hdata.acyclic v .refl hcycle
      have hless : σ.containersLeft (c :: around) < σ.containersLeft around :=
        length_filter_notMem_cons_lt hmem hnew
      refine ih hw (hdata.inside hcontains) (fun c' hc' => ?_) (by omega)
      rcases List.mem_cons.mp hc' with rfl | hc'
      · exact hc ▸ .single hcontains
      · exact (haround c' hc').tail hcontains
    cases v with
    | undefined => exact ⟨.undefined, by rw [Unfolds], rfl⟩
    | boolean b => exact ⟨.boolean b, by rw [Unfolds], rfl⟩
    | number x =>
      obtain ⟨n, hx, hn⟩ := hplain
      refine ⟨.number n hn, ?_, ?_⟩
      · rw [Unfolds]
        exact ⟨x, rfl, hx⟩
      · rw [render, Datum.shown]
        exact Number.text_of_toNat? hx hn
    | text s =>
      have hs : ∀ c ∈ s.toList, Text.Legible c := hplain
      exact ⟨.text s hs, by rw [Unfolds], rfl⟩
    | function f => exact hplain.elim
    | array a =>
      have hnew : .array a ∉ around := fun hold => hdata.acyclic _ .refl (haround _ hold)
      obtain ⟨ds, hds, hshown⟩ := exists_unfoldsAll (σ := σ) fun w (hw : w ∈ (σ.array a).toList) =>
        hinside (c := .array a) rfl (array_mem_containers hv) (hσ.has_item (by simpa using hw))
          (.item hw)
      refine ⟨.array ds, ?_, ?_⟩
      · rw [Unfolds]
        exact ⟨a, rfl, hv, hds⟩
      · rw [render, if_neg hnew, Datum.shown, hshown]
    | map m =>
      have hnew : .map m ∉ around := fun hold => hdata.acyclic _ .refl (haround _ hold)
      obtain ⟨es, hes, hshown⟩ := exists_unfoldsEntries (σ := σ)
        fun e (he : e ∈ (σ.map m).entries) => ⟨hplain e he,
          hinside (c := .map m) rfl (map_mem_containers hv) (hσ.has_entry (Dict.get?_of_mem he))
            (.entry he)⟩
      refine ⟨.map es, ?_, ?_⟩
      · rw [Unfolds]
        exact ⟨m, rfl, hv, hes⟩
      · rw [render, if_neg hnew, Datum.shown, hshown]

/-- The text of an array that is data is that of its tree. -/
theorem display_eq_shown (hσ : σ.Closed) {a : ArrayId} (ha : a.index < σ.arrays.size)
    (hdata : σ.IsData (.array a)) :
    ∃ ds, σ.Unfolds (.array ds) (.array a) ∧ σ.display (.array a) = (Datum.array ds).shown := by
  have hnone : ∀ c ∈ ([] : List Container), Relation.TransGen σ.Contains c.value (.array a) :=
    fun c hc => nomatch hc
  obtain ⟨d, hd, hshown⟩ := exists_unfolds hσ (v := .array a) ha hdata hnone
    (containersLeft_lt_depthBound σ)
  have hdisplay : σ.display (.array a) = σ.render σ.depthBound [] true (.array a) := by
    rw [display, depthBound, render, render]
  cases d with
  | array ds => exact ⟨ds, hd, hdisplay.trans hshown⟩
  | undefined | boolean | number | text | map =>
    rw [Unfolds] at hd
    simp at hd

end Store

end Script
