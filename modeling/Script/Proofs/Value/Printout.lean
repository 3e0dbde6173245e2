import Mathlib.Tactic.Choose
import Script.Proofs.Value.Data

/-!
# Printouts

The text of a value is laid out as a finite tree, its printout.  A node of the tree is reached by a
path, which says at each container which of its contents to go to, and so is an occurrence of a
value inside the printed one.  The printout has a node for every occurrence up to the first
container that is met again on the way, and the node there is a mark.

So a mark is written exactly where a container stands inside itself.  Containers that occur several
times, but not inside themselves, are written out every time.

## Main definitions

* `Printout`: trees of text, with `Printout.at?`, the part of a printout at the end of a path.
* `Store.occurrence?`: the value at the end of a path, and the containers around it.
* `Store.IsPrintout`: what a printout of a value has at each path.
* `Store.Spells`: the plain text of a value, without regard to cycles.

## Main results

* `Store.exists_printout`: the text of a value is that of a printout.
* `Store.IsPrintout.unique`: a value has one printout.
* `Store.spells_render`: the text of a value without cycles is the plain one.
* `Store.printing_marks_cycles`: all of this for the text of a value by itself and as an item.
-/

namespace Script

/-! ## Containers and their contents -/

/-- The container that a value names, if it names one. -/
def Value.container? : Value → Option Container
  | .array a => some (.array a)
  | .map m => some (.map m)
  | _ => none

theorem Value.container?_eq_some_iff {v : Value} {c : Container} :
    v.container? = some c ↔ v = c.value := by
  constructor
  · intro h
    cases v <;> cases h <;> rfl
  · rintro rfl
    cases c <;> rfl

namespace Container

/-- The text before the contents. -/
def opening : Container → String
  | array _ => "["
  | map _ => "\x7b"

/-- The text after the contents. -/
def closing : Container → String
  | array _ => "]"
  | map _ => "\x7d"

/-- The text of the container where it stands inside itself. -/
def mark : Container → String
  | array _ => Store.arrayMark
  | map _ => Store.mapMark

end Container

/-- **Trees of text.**  A node is a text that stands for itself, the mark of a container, or a
container with its contents, each behind a label. -/
inductive Printout where
  | atom (text : String)
  | mark (c : Container)
  | opened (c : Container) (parts : List (String × Printout))
  deriving Inhabited

namespace Printout

mutual

/-- The text of a printout. -/
def text : Printout → String
  | atom text => text
  | mark c => c.mark
  | opened c parts => c.opening ++ ", ".intercalate (texts parts) ++ c.closing

/-- The texts of parts, with their labels. -/
def texts : List (String × Printout) → List String
  | [] => []
  | (label, p) :: parts => (label ++ p.text) :: texts parts

end

/-- The part of a printout at the end of a path. -/
def at? : Printout → List Nat → Option Printout
  | p, [] => some p
  | opened _ parts, i :: path => parts[i]?.bind fun part => part.2.at? path
  | _, _ :: _ => none

/-- What holds of a container with contents if it holds of the contents, and of all other printouts,
holds of every printout. -/
@[elab_as_elim] theorem induct {motive : Printout → Prop} (atom : ∀ text, motive (.atom text))
    (mark : ∀ c, motive (.mark c))
    (opened : ∀ c parts, (∀ part ∈ parts, motive part.2) → motive (.opened c parts)) :
    ∀ p, motive p
  | .atom text => atom text
  | .mark c => mark c
  | .opened c parts => opened c parts fun part _ => induct atom mark opened part.2
termination_by p => sizeOf p
decreasing_by
  have hless := List.sizeOf_lt_of_mem ‹part ∈ parts›
  obtain ⟨label, p⟩ := part
  simp only [Prod.mk.sizeOf_spec, Printout.opened.sizeOf_spec] at *
  omega

/-- No container is written as a mark. -/
def Unmarked (p : Printout) : Prop := ∀ path c, p.at? path ≠ some (.mark c)

theorem texts_eq_map (parts : List (String × Printout)) :
    texts parts = parts.map fun part => part.1 ++ part.2.text := by
  induction parts with
  | nil => rfl
  | cons part parts ih => rw [texts, ih, List.map_cons]

@[simp] theorem at?_nil (p : Printout) : p.at? [] = some p := by
  cases p <;> rfl

end Printout

namespace Store

variable {σ : Store} {around around' : List Container} {quoted : Bool} {v w : Value}
  {c : Container} {p p' q : Printout} {d : Nat}

/-- The contents of a container, with the labels that they have in its text. -/
def contents (σ : Store) : Container → List (String × Value)
  | .array a => (σ.array a).toList.map fun v => ("", v)
  | .map m => (σ.map m).entries.map fun e => (e.1 ++ ": ", e.2)

/-- The text of a value that is no container.  A text is put in quotes iff `quoted` holds. -/
def scalarText? (σ : Store) (quoted : Bool) : Value → Option String
  | .undefined => some "undefined"
  | .boolean b => some (if b then "true" else "false")
  | .number x => some (Number.text x)
  | .text s => some (if quoted then Text.quote s else s)
  | .function f => some ("<function " ++ σ.functionName f ++ ">")
  | .array _ | .map _ => none

theorem exists_scalarText? (σ : Store) (quoted : Bool) (h : v.container? = none) :
    ∃ text, σ.scalarText? quoted v = some text := by
  cases v with
  | undefined | boolean | number | text | function => exact ⟨_, rfl⟩
  | array | map => cases h

theorem container?_of_scalarText? {text : String} (h : σ.scalarText? quoted v = some text) :
    v.container? = none := by
  cases v with
  | undefined | boolean | number | text | function => rfl
  | array | map => cases h

/-- What stands in a container is contained in it. -/
theorem contains_of_mem_contents {label : String} (h : (label, v) ∈ σ.contents c) :
    σ.Contains c.value v := by
  cases c with
  | array a =>
    obtain ⟨u, hu, heq⟩ := List.mem_map.mp h
    cases heq
    exact .item hu
  | map m =>
    obtain ⟨e, he, heq⟩ := List.mem_map.mp h
    cases heq
    exact .entry he

/-- Only a container of the store has contents. -/
theorem mem_containers_of_mem_contents {e : String × Value} (h : e ∈ σ.contents c) :
    c ∈ σ.containers := by
  cases c with
  | array a =>
    obtain ⟨u, hu, -⟩ := List.mem_map.mp h
    exact array_mem_containers (index_lt_of_mem_array hu)
  | map m =>
    obtain ⟨e, he, -⟩ := List.mem_map.mp h
    exact map_mem_containers (index_lt_of_mem_map he)

/-! ## The text, container by container -/

theorem render_scalar {text : String} (h : σ.scalarText? quoted v = some text) :
    σ.render d around quoted v = text := by
  cases v with
  | undefined | boolean | number | text | function => cases d <;> exact Option.some.inj h
  | array | map => cases h

theorem render_mark (h : c ∈ around) : σ.render (d + 1) around quoted c.value = c.mark := by
  cases c with
  | array a => exact if_pos h
  | map m => exact if_pos h

theorem render_opened (h : c ∉ around) :
    σ.render (d + 1) around quoted c.value = c.opening ++ ", ".intercalate
      ((σ.contents c).map fun e => e.1 ++ σ.render d (c :: around) true e.2) ++ c.closing := by
  cases c with
  | array a =>
    refine (if_neg h).trans ?_
    simp [contents, Container.opening, Container.closing, Function.comp_def]
  | map m =>
    refine (if_neg h).trans ?_
    simp [contents, Container.opening, Container.closing, Function.comp_def]

/-! ## Occurrences -/

/-- **The occurrence at the end of a path**: the containers around it, the innermost first, and the
value.  The path starts at a value inside the containers `around`. -/
def occurrence? (σ : Store) (around : List Container) (v : Value) :
    List Nat → Option (List Container × Value)
  | [] => some (around, v)
  | i :: path => v.container?.bind fun c =>
    (σ.contents c)[i]?.bind fun e => σ.occurrence? (c :: around) e.2 path

theorem occurrence?_cons_eq_some_iff {i : Nat} {path : List Nat} {o : List Container × Value} :
    σ.occurrence? around v (i :: path) = some o ↔ ∃ c e, v.container? = some c ∧
      (σ.contents c)[i]? = some e ∧ σ.occurrence? (c :: around) e.2 path = some o := by
  simp only [occurrence?, Option.bind_eq_some_iff, exists_and_left]

/-- The containers around the start of a path are around its end. -/
theorem suffix_of_occurrence? {path : List Nat}
    (h : σ.occurrence? around v path = some (around', w)) : around <:+ around' := by
  induction path generalizing around v with
  | nil =>
    cases h
    exact List.suffix_rfl
  | cons i path ih =>
    obtain ⟨c, e, -, -, hrest⟩ := occurrence?_cons_eq_some_iff.mp h
    exact (List.suffix_cons c around).trans (ih hrest)

/-- The containers around an occurrence contain it, and lie on the way to it. -/
theorem contains_of_occurrence? {path : List Nat}
    (h : σ.occurrence? around v path = some (around', w))
    (haround : ∀ c ∈ around, Relation.TransGen σ.Contains c.value v) :
    Relation.ReflTransGen σ.Contains v w ∧
      ∀ c ∈ around', Relation.TransGen σ.Contains c.value w := by
  induction path generalizing around v with
  | nil =>
    cases h
    exact ⟨.refl, haround⟩
  | cons i path ih =>
    obtain ⟨c, ⟨label, u⟩, hc, he, hrest⟩ := occurrence?_cons_eq_some_iff.mp h
    cases Value.container?_eq_some_iff.mp hc
    have hu : σ.Contains c.value u := contains_of_mem_contents (List.mem_of_getElem? he)
    have hinside : ∀ c' ∈ c :: around, Relation.TransGen σ.Contains c'.value u :=
      List.forall_mem_cons.mpr ⟨.single hu, fun c' hc' => (haround c' hc').tail hu⟩
    obtain ⟨hway, hall⟩ := ih hrest hinside
    exact ⟨.head hu hway, hall⟩

/-! ## Printouts of a value -/

/-- **How an occurrence is written**, if it stands inside the containers `around`.  A container is
a mark if it is one of them, and otherwise shows its contents. -/
inductive WrittenAs (σ : Store) (around : List Container) (quoted : Bool) :
    Value → Printout → Prop
  | atom {v : Value} {text : String} (h : σ.scalarText? quoted v = some text) :
      WrittenAs σ around quoted v (.atom text)
  | mark {v : Value} {c : Container} (h : v.container? = some c) (hc : c ∈ around) :
      WrittenAs σ around quoted v (.mark c)
  | opened {v : Value} {c : Container} {parts : List (String × Printout)}
      (h : v.container? = some c) (hc : c ∉ around)
      (hlabels : parts.map Prod.fst = (σ.contents c).map Prod.fst) :
      WrittenAs σ around quoted v (.opened c parts)

/-- **A printout of a value**, which stands inside the containers `around`.  Whatever is written at
the end of a path is the occurrence there, and what is written are the occurrences that have
different containers around them.  A text is quoted if it is not the printed value itself. -/
structure IsPrintout (σ : Store) (around : List Container) (quoted : Bool) (v : Value)
    (p : Printout) : Prop where
  sound : ∀ path q, p.at? path = some q → ∃ around' w,
    σ.occurrence? around v path = some (around', w) ∧ around'.Nodup ∧
      σ.WrittenAs around' (quoted || !path.isEmpty) w q
  complete : ∀ path around' w, σ.occurrence? around v path = some (around', w) →
    around'.Nodup → ∃ q, p.at? path = some q

theorem isPrintout_atom {text : String} (h : σ.scalarText? quoted v = some text)
    (haround : around.Nodup) : σ.IsPrintout around quoted v (.atom text) where
  sound
    | [], q, hq => by
      cases hq
      exact ⟨around, v, rfl, haround, .atom (by simpa using h)⟩
    | i :: path, q, hq => by cases hq
  complete
    | [], _, _, _, _ => ⟨_, rfl⟩
    | i :: path, around', w, hw, _ => by
      obtain ⟨c, e, hc, -⟩ := occurrence?_cons_eq_some_iff.mp hw
      cases hc.symm.trans (container?_of_scalarText? h)

theorem isPrintout_mark (h : v.container? = some c) (hc : c ∈ around) (haround : around.Nodup) :
    σ.IsPrintout around quoted v (.mark c) where
  sound
    | [], q, hq => by
      cases hq
      exact ⟨around, v, rfl, haround, .mark h hc⟩
    | i :: path, q, hq => by cases hq
  complete
    | [], _, _, _, _ => ⟨_, rfl⟩
    | i :: path, around', w, hw, hnodup => by
      obtain ⟨c', e, hc', -, hrest⟩ := occurrence?_cons_eq_some_iff.mp hw
      cases h.symm.trans hc'
      -- the container is around itself on this path
      have htwice : (c :: around).Nodup := hnodup.sublist (suffix_of_occurrence? hrest).sublist
      exact absurd hc (List.nodup_cons.mp htwice).1

/-- A container that is met for the first time is written out if its contents are. -/
theorem isPrintout_opened {f : String × Value → Printout} (h : v.container? = some c)
    (hc : c ∉ around) (haround : around.Nodup)
    (hf : ∀ e ∈ σ.contents c, σ.IsPrintout (c :: around) true e.2 (f e)) :
    σ.IsPrintout around quoted v (.opened c ((σ.contents c).map fun e => (e.1, f e))) where
  sound
    | [], q, hq => by
      cases hq
      exact ⟨around, v, rfl, haround, .opened h hc (by simp [Function.comp_def])⟩
    | i :: path, q, hq => by
      obtain ⟨part, hpart, hq⟩ := Option.bind_eq_some_iff.mp hq
      rw [List.getElem?_map] at hpart
      obtain ⟨e, he, rfl⟩ := Option.map_eq_some_iff.mp hpart
      obtain ⟨around', w, hw, hnodup, hwritten⟩ :=
        (hf e (List.mem_of_getElem? he)).sound path q hq
      refine ⟨around', w, ?_, hnodup, by simpa using hwritten⟩
      exact occurrence?_cons_eq_some_iff.mpr ⟨c, e, h, he, hw⟩
  complete
    | [], _, _, _, _ => ⟨_, rfl⟩
    | i :: path, around', w, hw, hnodup => by
      obtain ⟨c', e, hc', he, hrest⟩ := occurrence?_cons_eq_some_iff.mp hw
      cases h.symm.trans hc'
      obtain ⟨q, hq⟩ := (hf e (List.mem_of_getElem? he)).complete path around' w hrest hnodup
      refine ⟨q, Option.bind_eq_some_iff.mpr ⟨(e.1, f e), ?_, hq⟩⟩
      rw [List.getElem?_map, he]
      rfl

/-- **The text of a value is that of a printout.**  With each container that is entered, fewer are
left, so the printout is finite. -/
theorem exists_printout (haround : around.Nodup) (hd : σ.containersLeft around < d)
    (quoted : Bool) (v : Value) :
    ∃ p, σ.IsPrintout around quoted v p ∧ p.text = σ.render d around quoted v := by
  induction d generalizing around quoted v with
  | zero => exact absurd hd (Nat.not_lt_zero _)
  | succ d ih =>
    cases hv : v.container? with
    | none =>
      obtain ⟨text, htext⟩ := exists_scalarText? σ quoted hv
      exact ⟨.atom text, isPrintout_atom htext haround, (render_scalar htext).symm⟩
    | some c =>
      cases Value.container?_eq_some_iff.mp hv
      by_cases hc : c ∈ around
      · exact ⟨.mark c, isPrintout_mark hv hc haround, (render_mark hc).symm⟩
      · have hinside : ∀ e ∈ σ.contents c, ∃ p, σ.IsPrintout (c :: around) true e.2 p ∧
            p.text = σ.render d (c :: around) true e.2 := by
          intro e he
          have hless : σ.containersLeft (c :: around) < σ.containersLeft around :=
            length_filter_notMem_cons_lt (mem_containers_of_mem_contents he) hc
          exact ih (List.nodup_cons.mpr ⟨hc, haround⟩) (by omega) true e.2
        choose! f hf htext using hinside
        refine ⟨_, isPrintout_opened hv hc haround hf, ?_⟩
        have htexts : (σ.contents c).map (fun e => e.1 ++ (f e).text) =
            (σ.contents c).map fun e => e.1 ++ σ.render d (c :: around) true e.2 :=
          List.map_congr_left fun e he => by rw [htext e he]
        rw [render_opened hc, ← htexts, Printout.text, Printout.texts_eq_map, List.map_map]
        rfl

/-- A part of a printout is a printout of what stands there. -/
theorem IsPrintout.part {parts : List (String × Printout)} {i : Nat} {e : String × Value}
    {part : String × Printout} (h : σ.IsPrintout around quoted v (.opened c parts))
    (hv : v.container? = some c) (he : (σ.contents c)[i]? = some e)
    (hpart : parts[i]? = some part) :
    σ.IsPrintout (c :: around) true e.2 part.2 where
  sound path q hq := by
    have hat : (Printout.opened c parts).at? (i :: path) = some q :=
      Option.bind_eq_some_iff.mpr ⟨part, hpart, hq⟩
    obtain ⟨around', w, hw, hnodup, hwritten⟩ := h.sound _ _ hat
    obtain ⟨c', e', hc', he', hrest⟩ := occurrence?_cons_eq_some_iff.mp hw
    cases hv.symm.trans hc'
    cases he.symm.trans he'
    exact ⟨around', w, hrest, hnodup, by simpa using hwritten⟩
  complete path around' w hw hnodup := by
    have hfrom : σ.occurrence? around v (i :: path) = some (around', w) :=
      occurrence?_cons_eq_some_iff.mpr ⟨c, e, hv, he, hw⟩
    obtain ⟨q, hq⟩ := h.complete _ _ _ hfrom hnodup
    obtain ⟨part', hpart', hq⟩ := Option.bind_eq_some_iff.mp hq
    cases hpart.symm.trans hpart'
    exact ⟨q, hq⟩

/-- How the value itself is written. -/
theorem IsPrintout.root (h : σ.IsPrintout around quoted v p) : σ.WrittenAs around quoted v p := by
  obtain ⟨around', w, hw, -, hwritten⟩ := h.sound [] p p.at?_nil
  cases hw
  simpa using hwritten

/-- Two lists of parts are the same if their labels are, and the parts themselves one by one. -/
theorem parts_eq {parts parts' : List (String × Printout)} {contents : List (String × Value)}
    (hlabels : parts.map Prod.fst = contents.map Prod.fst)
    (hlabels' : parts'.map Prod.fst = contents.map Prod.fst)
    (h : ∀ (i : Nat) (e : String × Value) (part part' : String × Printout),
      contents[i]? = some e → parts[i]? = some part → parts'[i]? = some part' →
        part.2 = part'.2) : parts = parts' := by
  have hlength : parts.length = contents.length := by simpa using congrArg List.length hlabels
  have hlength' : parts'.length = contents.length := by simpa using congrArg List.length hlabels'
  refine List.ext_getElem (hlength.trans hlength'.symm) fun i hi hi' => ?_
  have hlabel : parts[i].1 = parts'[i].1 := by
    have heq := congrArg (·[i]?) (hlabels.trans hlabels'.symm)
    simpa [hi, hi'] using heq
  refine Prod.ext hlabel (h i contents[i] _ _ ?_ ?_ ?_)
  · exact List.getElem?_eq_getElem (hlength ▸ hi)
  · exact List.getElem?_eq_getElem hi
  · exact List.getElem?_eq_getElem hi'

/-- **A value has one printout.**  The induction is on one of two printouts: both have the same
node at their roots, and their parts are printouts of the same values. -/
theorem IsPrintout.unique (h : σ.IsPrintout around quoted v p)
    (h' : σ.IsPrintout around quoted v p') : p = p' := by
  induction p using Printout.induct generalizing p' around quoted v with
  | atom text =>
    cases h.root with
    | atom htext =>
      cases h'.root with
      | atom htext' => rw [Option.some.inj (htext.symm.trans htext')]
      | mark hc | opened hc => cases hc.symm.trans (container?_of_scalarText? htext)
  | mark c =>
    cases h.root with
    | mark hc hmem =>
      cases h'.root with
      | atom htext' => cases hc.symm.trans (container?_of_scalarText? htext')
      | mark hc' =>
        cases hc.symm.trans hc'
        rfl
      | opened hc' hnew =>
        cases hc.symm.trans hc'
        exact absurd hmem hnew
  | opened c parts ih =>
    cases h.root with
    | opened hc hnew hlabels =>
      cases h'.root with
      | atom htext' => cases hc.symm.trans (container?_of_scalarText? htext')
      | mark hc' hmem =>
        cases hc.symm.trans hc'
        exact absurd hmem hnew
      | opened hc' _ hlabels' =>
        cases hc.symm.trans hc'
        refine congrArg _ (parts_eq hlabels hlabels' fun i e part part' he hpart hpart' => ?_)
        exact ih part (List.mem_of_getElem? hpart) (h.part hc he hpart) (h'.part hc he hpart')

/-! ## Plain text -/

mutual

/-- **The plain text of a value**: that of a container is made of the texts of its contents,
whatever it stands in. -/
inductive Spells (σ : Store) : Bool → Value → String → Prop
  | scalar {quoted : Bool} {v : Value} {text : String} (h : σ.scalarText? quoted v = some text) :
      Spells σ quoted v text
  | container {quoted : Bool} {v : Value} {c : Container} {texts : List String}
      (h : v.container? = some c) (hparts : SpellsAll σ (σ.contents c) texts) :
      Spells σ quoted v (c.opening ++ ", ".intercalate texts ++ c.closing)

/-- The plain texts of labelled values. -/
inductive SpellsAll (σ : Store) : List (String × Value) → List String → Prop
  | nil : SpellsAll σ [] []
  | cons {label text : String} {v : Value} {parts : List (String × Value)} {texts : List String}
      (h : Spells σ true v text) (hrest : SpellsAll σ parts texts) :
      SpellsAll σ ((label, v) :: parts) ((label ++ text) :: texts)

end

mutual

/-- A value has at most one plain text. -/
theorem Spells.unique {quoted : Bool} {v : Value} {text text' : String} :
    σ.Spells quoted v text → σ.Spells quoted v text' → text = text'
  | .scalar h, h' => by
    cases h' with
    | scalar h' => exact Option.some.inj (h.symm.trans h')
    | container hc => cases hc.symm.trans (container?_of_scalarText? h)
  | .container h hparts, h' => by
    cases h' with
    | scalar h' => cases h.symm.trans (container?_of_scalarText? h')
    | container h' hparts' =>
      cases h.symm.trans h'
      rw [hparts.unique hparts']

theorem SpellsAll.unique {parts : List (String × Value)} {texts texts' : List String} :
    σ.SpellsAll parts texts → σ.SpellsAll parts texts' → texts = texts'
  | .nil, h' => by
    cases h'
    rfl
  | .cons h hrest, h' => by
    cases h' with
    | cons h' hrest' => rw [h.unique h', hrest.unique hrest']

end

theorem spellsAll_map {parts : List (String × Value)} {f : Value → String}
    (h : ∀ e ∈ parts, σ.Spells true e.2 (f e.2)) :
    σ.SpellsAll parts (parts.map fun e => e.1 ++ f e.2) := by
  induction parts with
  | nil => exact .nil
  | cons e parts ih =>
    exact .cons (h e List.mem_cons_self) (ih fun e' he' => h e' (List.mem_cons_of_mem _ he'))

/-- Nothing in the value contains itself. -/
def Acyclic (σ : Store) (v : Value) : Prop :=
  ∀ w, Relation.ReflTransGen σ.Contains v w → ¬ Relation.TransGen σ.Contains w w

theorem Acyclic.inside (h : σ.Acyclic v) (hw : σ.Contains v w) : σ.Acyclic w :=
  fun u hu => h u (.head hw hu)

/-- **The text of a value without cycles is the plain one.**  The containers around a value contain
it, so none of them is met again inside. -/
theorem spells_render (hv : σ.Acyclic v)
    (haround : ∀ c ∈ around, Relation.TransGen σ.Contains c.value v)
    (hd : σ.containersLeft around < d) : σ.Spells quoted v (σ.render d around quoted v) := by
  induction d generalizing around quoted v with
  | zero => exact absurd hd (Nat.not_lt_zero _)
  | succ d ih =>
    cases hc : v.container? with
    | none =>
      obtain ⟨text, htext⟩ := exists_scalarText? σ quoted hc
      rw [render_scalar htext]
      exact .scalar htext
    | some c =>
      cases Value.container?_eq_some_iff.mp hc
      have hnew : c ∉ around := fun hold => hv _ .refl (haround c hold)
      rw [render_opened hnew]
      refine .container hc (spellsAll_map fun e he => ?_)
      have hcontains : σ.Contains c.value e.2 := contains_of_mem_contents he
      have hless : σ.containersLeft (c :: around) < σ.containersLeft around :=
        length_filter_notMem_cons_lt (mem_containers_of_mem_contents he) hnew
      refine ih (hv.inside hcontains) (List.forall_mem_cons.mpr ⟨.single hcontains, ?_⟩) (by omega)
      exact fun c' hc' => (haround c' hc').tail hcontains

/-- A printout of a value without cycles has no marks. -/
theorem IsPrintout.unmarked (h : σ.IsPrintout [] quoted v p) (hv : σ.Acyclic v) : p.Unmarked := by
  intro path c hat
  obtain ⟨around, w, hw, -, hwritten⟩ := h.sound path _ hat
  obtain ⟨hway, hall⟩ := contains_of_occurrence? hw (by simp)
  cases hwritten with
  | mark hc hmem =>
    cases Value.container?_eq_some_iff.mp hc
    exact hv _ hway (hall c hmem)

/-! ## The text of a value -/

/-- **How a value is printed.**  The text is that of the printout of the value.  If nothing in the
value contains itself, it is the plain text, and there are no marks. -/
structure PrintedAs (σ : Store) (quoted : Bool) (v : Value) (text : String) : Prop where
  printout : ∃ p, (∀ p', σ.IsPrintout [] quoted v p' ↔ p' = p) ∧ p.text = text
  plain : σ.Acyclic v → (∀ text', σ.Spells quoted v text' ↔ text' = text) ∧
    ∀ p, σ.IsPrintout [] quoted v p → p.Unmarked

theorem printedAs_render (σ : Store) (quoted : Bool) (v : Value) :
    σ.PrintedAs quoted v (σ.render σ.depthBound [] quoted v) where
  printout := by
    obtain ⟨p, hp, htext⟩ := exists_printout (σ := σ) List.nodup_nil
      σ.containersLeft_lt_depthBound quoted v
    refine ⟨p, fun p' => ⟨fun hp' => hp'.unique hp, ?_⟩, htext⟩
    rintro rfl
    exact hp
  plain hv := by
    have hspells : σ.Spells quoted v (σ.render σ.depthBound [] quoted v) :=
      spells_render hv (by simp) σ.containersLeft_lt_depthBound
    refine ⟨fun text' => ⟨fun h => h.unique hspells, ?_⟩, fun p hp => hp.unmarked hv⟩
    rintro rfl
    exact hspells

/-- **Printing marks exactly the cycles**, for the text of a value by itself, where a text is not
quoted, and as an item, where it is. -/
theorem printing_marks_cycles (σ : Store) (v : Value) :
    σ.PrintedAs false v (σ.display v) ∧ σ.PrintedAs true v (σ.inspect v) :=
  ⟨printedAs_render σ false v, printedAs_render σ true v⟩

/-- An array that holds itself, and another one twice. -/
example :
    let σ : Store := ⟨#[#[.array ⟨0⟩, .array ⟨1⟩, .array ⟨1⟩], #[.text "x"]], #[], #[], #[]⟩
    σ.display (.array ⟨0⟩) = "[[...], [\"x\"], [\"x\"]]" := by
  decide +kernel

end Store

end Script
