import Mathlib.Data.List.Basic
import Mathlib.Data.List.Induction
import Script.Proofs.Eval.Development
import Script.Proofs.Run.ReadBack
import Script.Run.Batch

/-!
# Maps as dictionaries

A map is known under many names, and a program writes to it through any of them.  All that the
program can see of the map afterwards is the history of these writes: the keys in the order of their
first writes, and for each key the value of its last one.  The entries of a literal are the first
writes of a history.  No write to a map changes an array or another map.

A map has methods only as long as no entry has their names.  What is called then is the entry.

## Main definitions

* `Dict.firstWrites`, `Dict.lastWrite?`: what is left of a history of writes.
* `Uses`: evaluations that write to a map, among other things.
* `Begun`: a map at the beginning of its use.
* `Answers`: what a program sees of a map with a history.

## Main results

* `Dict.keys_insertAll`, `Dict.get?_insertAll`: dictionaries and histories.
* `Uses.wrote`: the uses of a map change it by their writes, and change nothing else.
* `answers_of_map`: a map with a history answers as the history says.
* `map_answers_history`: so does every map, however it is used.
* `keys_hidden_by_entry`: an entry hides the method of its name.
-/

namespace Script

open Eval Outcome

/-! ## Dictionaries and their writes -/

namespace Dict

variable {α : Type}

/-- The keys of the writes, each at the place of its first write. -/
def firstWrites (ws : List (String × α)) : List String := (ws.map Prod.fst).eraseDups

/-- The value of the last write to a key. -/
def lastWrite? (ws : List (String × α)) (key : String) : Option α := ws.reverse.lookup key

theorem mem_firstWrites {ws : List (String × α)} {key : String} :
    key ∈ firstWrites ws ↔ key ∈ ws.map Prod.fst :=
  List.mem_eraseDups

theorem insertAll_append (d : Dict α) (ws ws' : List (String × α)) :
    d.insertAll (ws ++ ws') = (d.insertAll ws).insertAll ws' :=
  List.foldl_append

theorem insertAll_concat (d : Dict α) (ws : List (String × α)) (w : String × α) :
    d.insertAll (ws ++ [w]) = (d.insertAll ws).insert w.1 w.2 :=
  List.foldl_concat _ _ _ _

/-- A dictionary comes from its own entries. -/
theorem insertAll_entries (d : Dict α) : empty.insertAll d.entries = d :=
  ext_entries (entries_insertAll d.nodup)

/-- **The keys are in the order of their first writes.** -/
theorem keys_insertAll (ws : List (String × α)) : (empty.insertAll ws).keys = firstWrites ws := by
  induction ws using List.reverseRecOn with
  | nil => rfl
  | append_singleton ws w ih =>
    rw [insertAll_concat, keys_insert, ih, firstWrites, firstWrites, List.map_append,
      List.eraseDups_append]
    by_cases hmem : w.1 ∈ ws.map Prod.fst
    · rw [if_pos (List.mem_eraseDups.mpr hmem)]
      simp [List.removeAll, hmem]
    · rw [if_neg fun h => hmem (List.mem_eraseDups.mp h)]
      simp [List.removeAll, hmem, List.eraseDups_cons]

/-- **A key has the value of its last write.** -/
theorem get?_insertAll (ws : List (String × α)) (key : String) :
    (empty.insertAll ws).get? key = lastWrite? ws key := by
  induction ws using List.reverseRecOn with
  | nil => rfl
  | append_singleton ws w ih =>
    rw [insertAll_concat, get?_insert, ih, lastWrite?, lastWrite?, List.reverse_concat]
    rw [List.lookup_cons]
    by_cases hkey : key = w.1
    · rw [if_pos hkey, beq_iff_eq.mpr hkey]
    · rw [if_neg hkey, beq_eq_false_iff_ne.mpr hkey]

/-- The entries are the keys with their values. -/
theorem entries_eq_map_keys (d : Dict α) (default : α) :
    d.entries = d.keys.map fun key => (key, (d.get? key).getD default) := by
  rw [keys, List.map_map]
  refine (List.map_id _).symm.trans (List.map_congr_left ?_)
  rintro ⟨key, value⟩ hmem
  simp [get?_of_mem hmem]

end Dict

/-! ## Containers that stay as they are -/

namespace Store

variable {σ τ υ : Store} {c : Container} {n : MapId} {d : Dict Value}

/-- A container is in both stores, with the same contents, or in neither. -/
def SameAt (σ τ : Store) : Container → Prop
  | .array a => τ.arrays[a.index]? = σ.arrays[a.index]?
  | .map n => τ.maps[n.index]? = σ.maps[n.index]?

theorem SameAt.trans (h : σ.SameAt τ c) (h' : τ.SameAt υ c) : σ.SameAt υ c := by
  cases c with
  | array a => exact Eq.trans h' h
  | map n => exact Eq.trans h' h

/-- A change of a map leaves all other containers alone. -/
theorem sameAt_modifyMap (f : Dict Value → Dict Value) (h : c ≠ .map n) :
    σ.SameAt (σ.modifyMap n f) c := by
  cases c with
  | array a => rfl
  | map k =>
    have hne : n.index ≠ k.index := by
      intro heq
      cases n
      cases k
      cases heq
      exact h rfl
    exact (Array.getElem?_modify ..).trans (if_neg hne)

theorem getElem?_modifyMap (f : Dict Value → Dict Value) (h : σ.maps[n.index]? = some d) :
    (σ.modifyMap n f).maps[n.index]? = some (f d) := by
  unfold modifyMap
  rw [Array.getElem?_modify, if_pos rfl, h, Option.map_some]

theorem map_of_getElem? (h : σ.maps[n.index]? = some d) : σ.map n = d := by
  rw [map, Array.getD_eq_getD_getElem?, h, Option.getD_some]

/-- A new map leaves all others alone. -/
theorem sameAt_newMap (entries : Dict Value) (h : c ≠ .map (σ.newMap entries).1) :
    σ.SameAt (σ.newMap entries).2 c := by
  cases c with
  | array a => rfl
  | map k =>
    have hne : k.index ≠ σ.maps.size := by
      intro heq
      cases k
      cases heq
      exact h rfl
    exact (Array.getElem?_push ..).trans (if_neg hne)

/-- A function object stays what it is, whatever is evaluated. -/
theorem Develops.function? {here : ScopeId} {f : FunctionId} {g : Function}
    (h : Develops here σ τ) (hf : σ.function? f = some g) : τ.function? f = some g := by
  have hnew (σ : Store) (g' : Function) (hf : σ.function? f = some g) :
      (σ.newFunction g').2.function? f = some g := by
    have hlt : f.index < σ.functions.size := (Array.getElem?_eq_some_iff.mp hf).1
    exact (Array.getElem?_push_lt hlt).trans ((Array.getElem?_eq_getElem hlt).symm.trans hf)
  induction h with
  | refl => exact hf
  | change h =>
    cases h with
    | newNative n => exact hnew _ _ hf
    | newClosure name params body => exact hnew _ _ hf
    | assign name value =>
      unfold assign
      split <;> exact hf
    | newArray | newMap | define | modifyArray | modifyMap => exact hf
  | trans _ _ ih ih' => exact ih' (ih hf)
  | body _ _ ih | call _ _ _ ih => exact ih hf

end Store

/-! ## Writing to a map -/

section Writing

variable {fuel : Nat} {container key value : Expr Unit} {m m₁ m₂ m₃ : Machine} {n : MapId}
variable {v : Value}

theorem assignTo_field (hcontainer : evalExpr fuel container m = .ok (.map n) m₁) (name : String)
    (v : Value) : assignTo (evalExpr fuel) v (.field () container name) m =
      .ok () { m₁ with store := m₁.store.modifyMap n fun d => d.insert name v } :=
  bind_of_ok hcontainer

theorem assignTo_index (hcontainer : evalExpr fuel container m = .ok (.map n) m₁) {name : String}
    (hkey : evalExpr fuel key m₁ = .ok (.text name) m₂) (v : Value) :
    assignTo (evalExpr fuel) v (.index () container key) m =
      .ok () { m₂ with store := m₂.store.modifyMap n fun d => d.insert name v } :=
  (bind_of_ok hcontainer).trans (bind_of_ok hkey)

/-- The value of an assignment is the assigned value, and the place is changed in the end. -/
theorem evalExpr_assign {target : Target Unit} (hvalue : evalExpr fuel value m = .ok v m₁)
    (htarget : assignTo (evalExpr fuel) v target m₁ = .ok () m₂) :
    evalExpr (fuel + 1) (.assign () target value) m = .ok v m₂ := by
  simp only [evalExpr, Expr.evalWith]
  rw [bind_of_ok hvalue, bind_of_ok htarget]
  rfl

end Writing

/-- **Using a map.**  On the way from one machine to another the map `n` is written to, in turn, as
the list says.  The expressions that yield the map, the keys and the values may be any, and may use
the map themselves.  What happens besides leaves the map alone, and the containers `kept`. -/
inductive Uses (n : MapId) (kept : Container → Prop) :
    Machine → List (String × Value) → Machine → Prop where
  | aside {m m' : Machine} (hmap : m.store.SameAt m'.store (.map n))
      (hkept : ∀ c, kept c → m.store.SameAt m'.store c) : Uses n kept m [] m'
  | andThen {m m' m'' : Machine} {ws ws' : List (String × Value)} (h : Uses n kept m ws m')
      (h' : Uses n kept m' ws' m'') : Uses n kept m (ws ++ ws') m''
  /-- `container.name = value` -/
  | field {fuel : Nat} {container value : Expr Unit} {name : String} {v : Value}
      {m m₁ m₂ : Machine} {ws ws₁ : List (String × Value)}
      (hvalue : evalExpr fuel value m = .ok v m₁) (husesValue : Uses n kept m ws m₁)
      (hcontainer : evalExpr fuel container m₁ = .ok (.map n) m₂)
      (husesContainer : Uses n kept m₁ ws₁ m₂) :
      Uses n kept m (ws ++ ws₁ ++ [(name, v)])
        (after (evalExpr (fuel + 1) (.assign () (.field () container name) value)) m)
  /-- `container[key] = value` -/
  | index {fuel : Nat} {container key value : Expr Unit} {name : String} {v : Value}
      {m m₁ m₂ m₃ : Machine} {ws ws₁ ws₂ : List (String × Value)}
      (hvalue : evalExpr fuel value m = .ok v m₁) (husesValue : Uses n kept m ws m₁)
      (hcontainer : evalExpr fuel container m₁ = .ok (.map n) m₂)
      (husesContainer : Uses n kept m₁ ws₁ m₂)
      (hkey : evalExpr fuel key m₂ = .ok (.text name) m₃) (husesKey : Uses n kept m₂ ws₂ m₃) :
      Uses n kept m (ws ++ ws₁ ++ ws₂ ++ [(name, v)])
        (after (evalExpr (fuel + 1) (.assign () (.index () container key) value)) m)

/-- From one machine to another, exactly the given writes have been made to a map. -/
structure Wrote (n : MapId) (kept : Container → Prop) (m : Machine) (ws : List (String × Value))
    (m' : Machine) : Prop where
  map : ∀ d, m.store.maps[n.index]? = some d → m'.store.maps[n.index]? = some (d.insertAll ws)
  others : ∀ c, kept c → c ≠ .map n → m.store.SameAt m'.store c

namespace Wrote

variable {n : MapId} {kept : Container → Prop} {m m' m'' : Machine} {ws ws' : List (String × Value)}

theorem trans (h : Wrote n kept m ws m') (h' : Wrote n kept m' ws' m'') :
    Wrote n kept m (ws ++ ws') m'' := by
  constructor
  · intro d hd
    rw [Dict.insertAll_append]
    exact h'.map _ (h.map d hd)
  · intro c hc hne
    exact (h.others c hc hne).trans (h'.others c hc hne)

/-- One more write. -/
theorem concat (h : Wrote n kept m ws m') (name : String) (v : Value) :
    Wrote n kept m (ws ++ [(name, v)])
      { m' with store := m'.store.modifyMap n fun d => d.insert name v } := by
  refine h.trans ⟨fun d hd => Store.getElem?_modifyMap _ hd, fun c _ hne => ?_⟩
  exact Store.sameAt_modifyMap _ hne

end Wrote

/-- **Every use of a map makes its writes**, and no others. -/
theorem Uses.wrote {n : MapId} {kept : Container → Prop} {m m' : Machine}
    {ws : List (String × Value)} (h : Uses n kept m ws m') : Wrote n kept m ws m' := by
  induction h with
  | aside hmap hkept => exact ⟨fun d hd => Eq.trans hmap hd, fun c hc _ => hkept c hc⟩
  | andThen _ _ ih ih' => exact ih.trans ih'
  | @field fuel container value name v m m₁ m₂ ws ws₁ hvalue _ hcontainer _ ih ih₁ =>
    rw [after_of_ok (evalExpr_assign hvalue (assignTo_field hcontainer name v))]
    exact (ih.trans ih₁).concat name v
  | @index fuel container key value name v m m₁ m₂ m₃ ws ws₁ ws₂ hvalue _ hcontainer _ hkey _ ih
      ih₁ ih₂ =>
    rw [after_of_ok (evalExpr_assign hvalue (assignTo_index hcontainer hkey v))]
    exact ((ih.trans ih₁).trans ih₂).concat name v

/-- A map at the beginning of its use, with the writes that have been made to it: it has just been
made from a literal, whose entries are writes in turn, or it is any map of the store.  The first
machine is the one that does not have the new map yet. -/
inductive Begun (n : MapId) : Machine → List (String × Value) → Machine → Prop where
  | literal {fuel : Nat} {entries : List (String × Expr Unit)} {vs : List (String × Value)}
      {m m₁ m₂ : Machine} (hentries : evalEntries (evalExpr fuel) entries m = .ok vs m₁)
      (hmap : evalExpr (fuel + 1) (.map () entries) m = .ok (.map n) m₂) : Begun n m₁ vs m₂
  | present {m : Machine} {d : Dict Value} (h : m.store.maps[n.index]? = some d) :
      Begun n m d.entries m

/-- A map begins with its writes, and its making changes no other container. -/
theorem Begun.wrote {n : MapId} {m m' : Machine} {ws : List (String × Value)}
    (h : Begun n m ws m') :
    m'.store.maps[n.index]? = some (Dict.empty.insertAll ws) ∧
      ∀ c, c ≠ .map n → m.store.SameAt m'.store c := by
  cases h with
  | @literal fuel entries vs m₀ m₁ m₂ hentries hmap =>
    simp only [evalExpr, Expr.evalWith] at hmap
    rw [bind_of_ok hentries] at hmap
    injection hmap with hn hm
    subst hm
    injection hn with hn
    subst hn
    exact ⟨Array.getElem?_push_size, fun c hne => Store.sameAt_newMap _ hne⟩
  | @present _ d h =>
    rw [Dict.insertAll_entries]
    refine ⟨h, fun c _ => ?_⟩
    cases c <;> rfl

/-! ## Reading a map -/

/-- The machine with one more function object, for a method that has been looked up. -/
def Machine.withMethod (m : Machine) (native : Native) : Machine :=
  { m with store := (m.store.newFunction (.native native)).2 }

/-- **A map answers as a dictionary** with the given history of writes, in the machine `m`. -/
structure Answers (n : MapId) (ws : List (String × Value)) (m : Machine) : Prop where
  /-- `container[key]` is the value of the last write. -/
  index : ∀ fuel container key m₀ m₁ k, evalExpr fuel container m₀ = .ok (.map n) m₁ →
    evalExpr fuel key m₁ = .ok (.text k) m →
      evalExpr (fuel + 1) (.index () container key) m₀ =
        .ok ((Dict.lastWrite? ws k).getD .undefined) m
  /-- So is `container.k`, unless it is a method that no write has hidden. -/
  field : ∀ fuel container m₀ k, evalExpr fuel container m₀ = .ok (.map n) m →
    k ∈ ws.map Prod.fst ∨ k ∉ ["length", "keys", "has"] →
      evalExpr (fuel + 1) (.field () container k) m₀ =
        .ok ((Dict.lastWrite? ws k).getD .undefined) m
  /-- `for (name in container)` goes through the keys in the order of their first writes. -/
  loop : ∀ fuel container m₀ name body, evalExpr fuel container m₀ = .ok (.map n) m →
    execStmt (fuel + 1) (.forEach () name container body) m₀ =
      forLoop (runBinding (execStmt fuel) name body) ((Dict.firstWrites ws).map .text) m
  /-- So does the text of the map, wherever the map is not shown inside itself. -/
  printed : ∀ depth around nested, .map n ∉ around →
    m.store.render (depth + 1) around nested (.map n) =
      "\x7b" ++ ", ".intercalate ((Dict.firstWrites ws).map fun k =>
        k ++ ": " ++ m.store.render depth (.map n :: around) true
          ((Dict.lastWrite? ws k).getD .undefined)) ++ "\x7d"
  /-- `container.keys()` is a new array of the keys. -/
  keys : ∀ fuel container m₀, evalExpr fuel container m₀ = .ok (.map n) m →
    "keys" ∉ ws.map Prod.fst →
      ∃ m', evalExpr (fuel + 1) (.call () (.field () container "keys") []) m₀ =
          .ok (.array ⟨m.store.arrays.size⟩) m' ∧
        m'.store.arrays = m.store.arrays.push ((Dict.firstWrites ws).map .text).toArray ∧
        m'.store.maps = m.store.maps
  /-- `container.length()` is the number of keys. -/
  length : ∀ fuel container m₀, evalExpr fuel container m₀ = .ok (.map n) m →
    "length" ∉ ws.map Prod.fst →
      ∃ m', evalExpr (fuel + 1) (.call () (.field () container "length") []) m₀ =
          .ok (.ofNat (Dict.firstWrites ws).length) m' ∧
        m'.store.arrays = m.store.arrays ∧ m'.store.maps = m.store.maps
  /-- `container.has(key)` says whether the key has been written.  The key may write, too. -/
  has : ∀ fuel container key m₀ m₁ k, evalExpr fuel container m₀ = .ok (.map n) m₁ →
    "has" ∉ (m₁.store.map n).keys → evalExpr fuel key (m₁.withMethod .has) = .ok (.text k) m →
      evalExpr (fuel + 1) (.call () (.field () container "has") [key]) m₀ =
        .ok (.boolean (decide (k ∈ ws.map Prod.fst))) m
  /-- A call of an entry is a call of its value, also if a method has the same name. -/
  entry : ∀ fuel container m₀ k v args, evalExpr fuel container m₀ = .ok (.map n) m →
    Dict.lastWrite? ws k = some v →
      evalExpr (fuel + 1) (.call () (.field () container k) args) m₀ =
        (evalAll (evalExpr fuel) args >>= Eval.call (execStmt fuel) v (some (.map n))) m
  /-- The methods themselves answer so in any case. -/
  methods : Native.call .length (some (.map n)) [] m = .ok (.ofNat (Dict.firstWrites ws).length) m ∧
    Native.call .keys (some (.map n)) [] m =
      newArray ((Dict.firstWrites ws).map Value.text).toArray m ∧
    ∀ k, Native.call .has (some (.map n)) [.text k] m =
      .ok (.boolean (decide (k ∈ ws.map Prod.fst))) m

section Reading

variable {fuel : Nat} {container key : Expr Unit} {m m₀ m₁ : Machine} {n : MapId} {k : String}
variable {v : Value} {ws : List (String × Value)}

theorem readMember_of_entry (h : (m.store.map n).get? k = some v) :
    readMember (.map n) k m = .ok v m := by
  refine (bind_of_ok rfl).trans ?_
  simp only [h]
  rfl

theorem readMember_of_none (h : (m.store.map n).get? k = none) :
    readMember (.map n) k m = readMethod (.map n) k m := by
  refine (bind_of_ok rfl).trans ?_
  simp only [h]

theorem evalCallee_field {callee : Value} (hcontainer : evalExpr fuel container m₀ = .ok (.map n) m)
    (hmember : readMember (.map n) k m = .ok callee m₁) :
    evalCallee (evalExpr fuel) (.field () container k) m₀ = .ok (callee, some (.map n)) m₁ :=
  (bind_of_ok hcontainer).trans (bind_of_ok hmember)

theorem evalExpr_call {callee : Expr Unit} {f : Value} {receiver : Option Value}
    (hcallee : evalCallee (evalExpr fuel) callee m₀ = .ok (f, receiver) m)
    (args : List (Expr Unit)) :
    evalExpr (fuel + 1) (.call () callee args) m₀ =
      (evalAll (evalExpr fuel) args >>= Eval.call (execStmt fuel) f receiver) m := by
  simp only [evalExpr, Expr.evalWith]
  rw [bind_of_ok hcallee]

/-- The callee of a method that no entry hides. -/
theorem evalCallee_method {native : Native}
    (hcontainer : evalExpr fuel container m₀ = .ok (.map n) m) (hfree : k ∉ (m.store.map n).keys)
    (hmethod : Native.method? .map k = some native) :
    evalCallee (evalExpr fuel) (.field () container k) m₀ =
      .ok (.function ⟨m.store.functions.size⟩, some (.map n)) (m.withMethod native) := by
  refine evalCallee_field hcontainer ?_
  rw [readMember_of_none (Dict.get?_eq_none_iff.mpr hfree)]
  have hkind : Native.method? (Value.map n).kind k = some native := hmethod
  simp only [readMethod, hkind]
  rfl

theorem function?_withMethod (m : Machine) (native : Native) :
    (m.withMethod native).store.function? ⟨m.store.functions.size⟩ = some (.native native) :=
  Array.getElem?_push_size

/-- A call of a method that no entry hides, without arguments. -/
theorem evalExpr_method {native : Native}
    (hcontainer : evalExpr fuel container m₀ = .ok (.map n) m) (hfree : k ∉ (m.store.map n).keys)
    (hmethod : Native.method? .map k = some native) :
    evalExpr (fuel + 1) (.call () (.field () container k) []) m₀ =
      native.call (some (.map n)) [] (m.withMethod native) := by
  rw [evalExpr_call (evalCallee_method hcontainer hfree hmethod)]
  exact (bind_of_ok rfl).trans (call_of_native (function?_withMethod m native))

theorem method?_map_eq_none (h : k ∉ ["length", "keys", "has"]) :
    Native.method? .map k = none := by
  simp only [List.mem_cons, List.not_mem_nil, or_false, not_or] at h
  unfold Native.method?
  split <;> simp_all

/-- The methods of a map say what its entries are. -/
theorem methods_of_map (m : Machine) (n : MapId) :
    Native.call .length (some (.map n)) [] m = .ok (.ofNat (m.store.map n).keys.length) m ∧
    Native.call .keys (some (.map n)) [] m =
      newArray ((m.store.map n).keys.map Value.text).toArray m ∧
    ∀ k, Native.call .has (some (.map n)) [.text k] m =
      .ok (.boolean (decide (k ∈ (m.store.map n).keys))) m := by
  refine ⟨?_, rfl, fun k => ?_⟩
  · rw [Dict.length_keys]
    rfl
  · have hcontains : (m.store.map n).contains k = decide (k ∈ (m.store.map n).keys) := by
      rw [Bool.eq_iff_iff, Dict.contains_iff, decide_eq_true_iff]
    rw [← hcontains]
    rfl

/-- **A map with a history answers as the history says.** -/
theorem answers_of_map (hmap : m.store.maps[n.index]? = some (Dict.empty.insertAll ws)) :
    Answers n ws m := by
  have hdict := Store.map_of_getElem? hmap
  have hget (k : String) : (m.store.map n).get? k = Dict.lastWrite? ws k := by
    rw [hdict, Dict.get?_insertAll]
  have hkeys : (m.store.map n).keys = Dict.firstWrites ws := by
    rw [hdict, Dict.keys_insertAll]
  have hmem (k : String) : k ∈ (m.store.map n).keys ↔ k ∈ ws.map Prod.fst := by
    rw [hkeys, Dict.mem_firstWrites]
  have hmethods := methods_of_map m n
  simp only [hmem] at hmethods
  rw [hkeys] at hmethods
  constructor
  case index =>
    intro fuel container key m₀ m₁ k hcontainer hkey
    simp only [evalExpr, Expr.evalWith]
    rw [bind_of_ok hcontainer, bind_of_ok hkey, ← hget]
    rfl
  case field =>
    intro fuel container m₀ k hcontainer hk
    simp only [evalExpr, Expr.evalWith]
    rw [bind_of_ok hcontainer, ← hget]
    cases hentry : (m.store.map n).get? k with
    | some v => exact readMember_of_entry hentry
    | none =>
      have hname := hk.resolve_left fun h => Dict.get?_eq_none_iff.mp hentry ((hmem k).mpr h)
      have hmethod : Native.method? (Value.map n).kind k = none := method?_map_eq_none hname
      rw [readMember_of_none hentry]
      simp only [readMethod, hmethod]
      rfl
  case loop =>
    intro fuel container m₀ name body hcontainer
    simp only [execStmt, Stmt.execWith]
    rw [bind_of_ok hcontainer, ← hkeys]
    rfl
  case printed =>
    intro depth around nested hnew
    rw [Store.render, if_neg hnew, Dict.entries_eq_map_keys _ .undefined, List.map_map, hkeys]
    simp only [Function.comp_def, hget]
  case keys =>
    intro fuel container m₀ hcontainer hfree
    rw [← hmem] at hfree
    rw [evalExpr_method hcontainer hfree rfl, ← hkeys]
    exact ⟨_, rfl, rfl, rfl⟩
  case length =>
    intro fuel container m₀ hcontainer hfree
    rw [← hmem] at hfree
    rw [evalExpr_method hcontainer hfree rfl, ← hkeys]
    exact ⟨_, (methods_of_map _ n).1, rfl, rfl⟩
  case has =>
    intro fuel container key m₀ m₁ k hcontainer hfree hkey
    rw [evalExpr_call (evalCallee_method hcontainer hfree rfl)]
    have hargs : evalAll (evalExpr fuel) [key] (m₁.withMethod .has) = .ok [.text k] m :=
      (bind_of_ok hkey).trans rfl
    have hfunction : m.store.function? ⟨m₁.store.functions.size⟩ = some (.native .has) := by
      have hdevelops := ((developing_eval_exec fuel).1 key (m₁.withMethod .has)).store
      rw [after_of_ok hkey] at hdevelops
      exact hdevelops.function? (function?_withMethod m₁ .has)
    rw [bind_of_ok hargs, call_of_native hfunction, hmethods.2.2]
  case entry =>
    intro fuel container m₀ k v args hcontainer hv
    rw [← hget] at hv
    exact evalExpr_call (evalCallee_field hcontainer (readMember_of_entry hv)) args
  case methods => exact hmethods

end Reading

/-! ## The history of a map -/

/-- **Maps are dictionaries to every observer.**  Whatever the expressions are that yield the map,
its keys stand in the order of their first writes and have the values of their last writes, and the
writes change no other container. -/
theorem map_answers_history {n : MapId} {kept : Container → Prop} {m₀ m₁ m₂ : Machine}
    {ws₀ ws : List (String × Value)} (hbegun : Begun n m₀ ws₀ m₁) (huses : Uses n kept m₁ ws m₂) :
    Answers n (ws₀ ++ ws) m₂ ∧ ∀ c, kept c → c ≠ .map n → m₀.store.SameAt m₂.store c := by
  obtain ⟨hmap, hothers⟩ := hbegun.wrote
  have hwrote := huses.wrote
  constructor
  · apply answers_of_map
    rw [Dict.insertAll_append]
    exact hwrote.map _ hmap
  · intro c hc hne
    exact (hothers c hne).trans (hwrote.others c hc hne)

/-- A machine with an empty array and no names. -/
def bareMachine : Machine := ⟨⟨#[#[]], #[], #[], #[⟨none, .empty⟩]⟩, .unlimited, ⟨0⟩, 0⟩

/-- The machine after `\x7ba: true, b: false, a: false\x7d`. -/
def literalMachine : Machine :=
  after (evalExpr 2 (.map () [("a", .boolean () true), ("b", .boolean () false),
    ("a", .boolean () false)])) bareMachine

/-- The machine where the new map has got two names, and its keys have been listed. -/
def aliasMachine : Machine :=
  after (do
    define "m" (.map ⟨0⟩)
    define "alias" (.map ⟨0⟩)
    evalExpr 2 (.call () (.field () (.var () "m") "keys") [])) literalMachine

/-- `m.c = true; alias["b"] = m.a = true;` is three writes to one map. -/
theorem map_answers_history_aliases :
    ∃ m,
      Begun ⟨0⟩ bareMachine [("a", .boolean true), ("b", .boolean false), ("a", .boolean false)]
        literalMachine ∧
      Uses ⟨0⟩ (· = .array ⟨0⟩) literalMachine
        [("c", .boolean true), ("a", .boolean true), ("b", .boolean true)] m ∧
      Answers ⟨0⟩ [("a", .boolean true), ("b", .boolean false), ("a", .boolean false),
        ("c", .boolean true), ("a", .boolean true), ("b", .boolean true)] m ∧
      bareMachine.store.SameAt m.store (.array ⟨0⟩) := by
  have hbegun : Begun ⟨0⟩ bareMachine
      [("a", .boolean true), ("b", .boolean false), ("a", .boolean false)] literalMachine :=
    @Begun.literal _ 1 [("a", .boolean () true), ("b", .boolean () false), ("a", .boolean () false)]
      _ bareMachine _ _ rfl rfl
  have still (m : Machine) : Uses ⟨0⟩ (· = .array ⟨0⟩) m [] m :=
    .aside rfl fun c _ => by cases c <;> rfl
  have hnamed : Uses ⟨0⟩ (· = .array ⟨0⟩) literalMachine [] aliasMachine := by
    refine .aside rfl ?_
    rintro c rfl
    rfl
  have hfield : Uses ⟨0⟩ (· = .array ⟨0⟩) aliasMachine [("c", .boolean true)] _ :=
    @Uses.field _ _ 1 (.var () "m") (.boolean () true) "c" (.boolean true) aliasMachine _ _ _ _
      rfl (still _) rfl (still _)
  have hinner : Uses ⟨0⟩ (· = .array ⟨0⟩) _ [("a", .boolean true)] _ :=
    @Uses.field _ _ 1 (.var () "m") (.boolean () true) "a" (.boolean true)
      (after (evalExpr 2 (.assign () (.field () (.var () "m") "c") (.boolean () true)))
        aliasMachine) _ _ _ _ rfl (still _) rfl (still _)
  have hindex : Uses ⟨0⟩ (· = .array ⟨0⟩) _ [("a", .boolean true), ("b", .boolean true)] _ :=
    @Uses.index _ _ 2 (.var () "alias") (.text () "b")
      (.assign () (.field () (.var () "m") "a") (.boolean () true)) "b" (.boolean true)
      _ _ _ _ _ _ _ rfl hinner rfl (still _) rfl (still _)
  have huses := (hnamed.andThen hfield).andThen hindex
  obtain ⟨hanswers, hothers⟩ := map_answers_history hbegun huses
  exact ⟨_, hbegun, huses, hanswers, hothers _ rfl (by decide)⟩

/-! ## Methods hidden by entries -/

/-- **An entry hides the method of its name.**  The map has one key, and the call that should list
it fails. -/
theorem keys_hidden_by_entry :
    ∃ now m, (Batch.pass 9).Starts "let m = \x7bkeys: true\x7d; m.keys();"
        ⟨.prelude, .unlimited, ()⟩
        [.letVar () "m" (some (.map () [("keys", .boolean () true)]))]
        (.expr () (.call () (.field () (.var () "m") "keys") [])) now ∧
      now.ns.get? "m" = some (.map ⟨0⟩) ∧ (now.ns.store.map ⟨0⟩).keys = ["keys"] ∧
      (Batch.pass 9).runSource "let m = \x7bkeys: true\x7d; m.keys();"
        ⟨.prelude, .unlimited, ()⟩ =
          (.error ((Batch.pass 9).interrupt
            (.eval (.text "Cannot call a value of type boolean"))), Pass.resume now m) := by
  have htokens : TokenStream.ofSource "let m = \x7bkeys: true\x7d; m.keys();" =
      .ok (.ofTokens [⟨.keyword .letWord, ⟨0, 3⟩⟩, ⟨.identifier "m", ⟨4, 5⟩⟩,
        ⟨.symbol .assign, ⟨6, 7⟩⟩, ⟨.symbol .leftBrace, ⟨8, 9⟩⟩, ⟨.identifier "keys", ⟨9, 13⟩⟩,
        ⟨.symbol .colon, ⟨13, 14⟩⟩, ⟨.keyword .trueWord, ⟨15, 19⟩⟩,
        ⟨.symbol .rightBrace, ⟨19, 20⟩⟩, ⟨.symbol .semicolon, ⟨20, 21⟩⟩,
        ⟨.identifier "m", ⟨22, 23⟩⟩, ⟨.symbol .dot, ⟨23, 24⟩⟩, ⟨.identifier "keys", ⟨24, 28⟩⟩,
        ⟨.symbol .leftParen, ⟨28, 29⟩⟩, ⟨.symbol .rightParen, ⟨29, 30⟩⟩,
        ⟨.symbol .semicolon, ⟨30, 31⟩⟩] (.endAt 31)) := by rfl
  have hstarts : (Batch.pass 9).Starts "let m = \x7bkeys: true\x7d; m.keys();"
      ⟨.prelude, .unlimited, ()⟩ [.letVar () "m" (some (.map () [("keys", .boolean () true)]))]
      (.expr () (.call () (.field () (.var () "m") "keys") [])) _ :=
    Pass.starts_of_parseNext htokens rfl rfl rfl rfl (.cons rfl rfl .nil)
  exact ⟨_, _, hstarts, by decide +kernel, by decide +kernel, hstarts.runSource_of_stop rfl⟩

end Script
