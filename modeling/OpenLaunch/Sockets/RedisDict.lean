import OpenLaunch.Transition
import OpenLaunch.Python.JsonRoundTrip

/-! # The Redis dictionary

A `RedisDict` keeps a mapping in a Redis hash, with each value as its JSON text. Several objects, in
one process or in several, can be bound to the same hash. `set` replaces the whole mapping; it is
skipped if the signature of the mapping, a hash of its JSON text, is the one that this object
remembers of the last mapping it wrote. -/

namespace OpenLaunch.Sockets

open Python Transition

universe u

/-! ## Operations -/

/-- `json.dumps(value)`. -/
def dumpsValue (v : Json) : String := String.ofList (dumps .standard v)

/-- The Redis hash, and `_last_signature` of every object. -/
structure HashState (O : Type u) where
  hash : Dict String String
  lastSignature : O → Option String

/-- The operations that write, each on one object. -/
inductive DictOp (O : Type u)
  | setitem (o : O) (key : String) (value : Json)
  | delitem (o : O) (key : String)
  | update (o : O) (other : List (String × Json))
  | clear (o : O)
  | set (o : O) (mapping : Dict String Json)

variable {O : Type u} [DecidableEq O]

/-- `json.dumps(serialized, sort_keys=True)`. -/
def sortedText (serialized : Dict String String) : String :=
  dumpsValue (.dict
    ((serialized.entries.mergeSort fun a b => a.1 ≤ b.1).map fun e => (e.1, .str e.2)))

/-- The values of a mapping as they are stored. -/
def serialize (mapping : Dict String Json) : Dict String String :=
  mapping.mapValues fun _ v => dumpsValue v

/-- The signature of a mapping. -/
def signature (sha256 : String → String) (mapping : Dict String Json) : String :=
  sha256 (sortedText (serialize mapping))

/-- `_last_signature` of one object is written. -/
def remember (s : HashState O) (o : O) (sig : Option String) : O → Option String :=
  fun o' => if o' = o then sig else s.lastSignature o'

/-- `RedisDict.set`. -/
def HashState.set (sha256 : String → String) (s : HashState O) (o : O)
    (mapping : Dict String Json) : HashState O :=
  if mapping.entries = [] then ⟨.empty, remember s o none⟩
  else
    let serialized := serialize mapping
    if some (signature sha256 mapping) = s.lastSignature o then s
    else
      let existing_keys := s.hash.keys
      let keys_to_remove := existing_keys.filter fun key => key ∉ mapping.keys
      ⟨(s.hash.update serialized).filter fun key _ => key ∉ keys_to_remove,
        remember s o (some (signature sha256 mapping))⟩

/-- One operation. A deletion of a key that is missing raises a `KeyError` and changes nothing. -/
def dictStep (sha256 : String → String) (s : HashState O) : DictOp O → Option (HashState O)
  | .setitem _ key value => some { s with hash := s.hash.set key (dumpsValue value) }
  | .delitem _ key => some { s with hash := s.hash.erase key }
  | .update _ other => some { s with
      hash := other.foldl (fun hash e => hash.set e.1 (dumpsValue e.2)) s.hash }
  | .clear o => some ⟨.empty, remember s o none⟩
  | .set o mapping => some (s.set sha256 o mapping)

/-! ## What `set` writes -/

/-- The hash has exactly the values of the mapping. -/
def Has (hash : Dict String String) (mapping : Dict String Json) : Prop :=
  ∀ key, hash.get? key = (serialize mapping).get? key

/-- **Immediately after `set(m)`, the hash is `m`.** -/
def SetExact (sha256 : String → String) (s : HashState O) : DictOp O → Prop
  | .set o mapping => Has (s.set sha256 o mapping).hash mapping
  | _ => True

/-- The mapping is empty, or is not the one that the object remembers, or the hash has it. -/
def ShortcutHarmless (sha256 : String → String) (s : HashState O) : DictOp O → Prop
  | .set o mapping => mapping.entries = [] ∨
      s.lastSignature o ≠ some (signature sha256 mapping) ∨ Has s.hash mapping
  | _ => True

theorem has_empty {mapping : Dict String Json} (h : mapping.entries = []) :
    Has .empty mapping := by
  intro key
  have hnone : mapping.get? key = none := by
    unfold Dict.get?
    rw [h]
    rfl
  unfold serialize
  rw [Dict.get?_mapValues, hnone]
  rfl

/-- Writing the new values and removing the other keys leaves the mapping. -/
theorem has_written (hash : Dict String String) (mapping : Dict String Json) :
    Has ((hash.update (serialize mapping)).filter fun key _ =>
      key ∉ hash.keys.filter fun key => key ∉ mapping.keys) mapping := by
  intro key
  have hmem : key ∈ mapping.keys ↔ ((serialize mapping).get? key).isSome := by
    unfold serialize
    rw [Dict.get?_mapValues, Option.isSome_map]
    exact Dict.mem_iff_isSome
  rw [Dict.get?_filter, Dict.get?_update]
  cases hnew : (serialize mapping).get? key with
  | some text =>
    rw [hnew] at hmem
    simp [hmem]
  | none =>
    rw [hnew] at hmem
    cases hold : hash.get? key with
    | none => rfl
    | some text =>
      have hkey : key ∈ hash.keys := Dict.mem_iff_exists.mpr ⟨text, hold⟩
      have hnot : key ∉ mapping.keys := by simpa using hmem
      simp [hkey, hnot]

/-- `set` writes the mapping exactly where its shortcut is harmless. -/
theorem setExact_iff {sha256 : String → String} (s : HashState O) (e : DictOp O) :
    SetExact sha256 s e ↔ ShortcutHarmless sha256 s e := by
  cases e with
  | set o mapping =>
    show Has (s.set sha256 o mapping).hash mapping ↔ mapping.entries = [] ∨
      s.lastSignature o ≠ some (signature sha256 mapping) ∨ Has s.hash mapping
    unfold HashState.set
    by_cases hempty : mapping.entries = []
    · rw [if_pos hempty]
      exact iff_of_true (has_empty hempty) (Or.inl hempty)
    · rw [if_neg hempty]
      dsimp only
      by_cases hsame : some (signature sha256 mapping) = s.lastSignature o
      · rw [if_pos hsame]
        simp [hempty, hsame]
      · rw [if_neg hsame]
        exact iff_of_true (has_written s.hash mapping) (Or.inr (Or.inl (Ne.symm hsame)))
  | _ => exact Iff.rfl

/-- `__getitem__`: `none` is a `KeyError`. -/
def HashState.getitem (s : HashState O) (key : String) : Option (Except PyErr Json) :=
  (s.hash.get? key).map fun text => loads text.toList

/-- `items()`. The length, the keys and the values are those of its entries. -/
def HashState.items (s : HashState O) : List (String × Except PyErr Json) :=
  s.hash.entries.map fun e => (e.1, loads e.2.toList)

/-- What an operation does to a dictionary of the process. -/
def plainStep (d : Dict String Json) : DictOp O → Dict String Json
  | .setitem _ key value => d.set key value
  | .delitem _ key => d.erase key
  | .update _ other => other.foldl (fun d e => d.set e.1 e.2) d
  | .clear _ => .empty
  | .set _ mapping => mapping

/-- No hash, and objects that have written nothing. -/
def unwritten : HashState O := ⟨.empty, fun _ => none⟩

/-- The values that an operation brings. -/
def DictOp.values : DictOp O → List Json
  | .setitem _ _ value => [value]
  | .update _ other => other.map Prod.snd
  | .set _ mapping => mapping.values
  | .delitem _ _ | .clear _ => []

theorem has_iff {hash : Dict String String} {d : Dict String Json} :
    Has hash d ↔ ∀ key, hash.get? key = (d.get? key).map dumpsValue := by
  simp only [Has, serialize, Dict.get?_mapValues]

theorem has_set {hash : Dict String String} {d : Dict String Json} (h : Has hash d)
    (key : String) (value : Json) : Has (hash.set key (dumpsValue value)) (d.set key value) := by
  rw [has_iff] at h ⊢
  intro key'
  rw [Dict.get?_set, Dict.get?_set, h key']
  split <;> rfl

/-- One operation keeps the hash and the dictionary together. -/
theorem has_step {sha256 : String → String} {s s' : HashState O} {d : Dict String Json}
    {e : DictOp O} (h : Has s.hash d) (he : ShortcutHarmless sha256 s e)
    (hstep : dictStep sha256 s e = some s') : Has s'.hash (plainStep d e) := by
  cases e with
  | setitem o key value =>
    cases hstep
    exact has_set h key value
  | delitem o key =>
    cases hstep
    rw [has_iff] at h ⊢
    intro key'
    show (s.hash.erase key).get? key' = ((d.erase key).get? key').map dumpsValue
    rw [Dict.get?_erase, Dict.get?_erase, h key']
    split <;> rfl
  | update o other =>
    cases hstep
    show Has (other.foldl _ s.hash) (other.foldl _ d)
    clear he
    generalize s.hash = hash at h
    induction other generalizing hash d with
    | nil => exact h
    | cons e other ih => exact ih _ (has_set h e.1 e.2)
  | clear o =>
    cases hstep
    exact has_empty rfl
  | set o mapping =>
    cases hstep
    exact (setExact_iff s (.set o mapping)).mpr he

omit [DecidableEq O] in
theorem wellFormed_step {d : Dict String Json} {e : DictOp O} (hd : ∀ p ∈ d.entries, p.2.WellFormed)
    (he : ∀ v ∈ e.values, v.WellFormed) : ∀ p ∈ (plainStep d e).entries, p.2.WellFormed := by
  cases e with
  | setitem o key value => exact Assoc.forall_mem_set hd (he value (List.mem_singleton_self _))
  | delitem o key => exact fun p hp => hd p (List.mem_of_mem_filter hp)
  | update o other =>
    show ∀ p ∈ (other.foldl _ d).entries, _
    induction other generalizing d with
    | nil => exact hd
    | cons e other ih =>
      obtain ⟨hfirst, hrest⟩ := List.forall_mem_cons.mp he
      exact ih (Assoc.forall_mem_set hd hfirst) hrest
  | clear o => exact List.forall_mem_nil _
  | set o mapping => exact fun p hp => he p.2 (List.mem_map_of_mem hp)

theorem mem_map_entries {α : Type} {dict : Dict String α} {f : α → Except PyErr Json}
    {key : String} {r : Except PyErr Json} :
    (key, r) ∈ dict.entries.map (fun e => (e.1, f e.2)) ↔ (dict.get? key).map f = some r := by
  rw [List.mem_map, Option.map_eq_some_iff]
  constructor
  · rintro ⟨⟨key, a⟩, ha, heq⟩
    cases heq
    exact ⟨a, Dict.mem_entries_iff.mp ha, rfl⟩
  · rintro ⟨a, ha, rfl⟩
    exact ⟨(key, a), Dict.mem_entries_iff.mpr ha, rfl⟩

theorem nodup_map_entries {α : Type} (dict : Dict String α) (f : α → Except PyErr Json) :
    (dict.entries.map fun e => (e.1, f e.2)).Nodup := by
  apply List.Nodup.of_map Prod.fst
  rw [List.map_map]
  exact dict.nodup

/-- **Many objects, one dictionary.** Where no `set` is skipped wrongly, after every run of the
operations of any number of objects, in any order, each of them reads what a dictionary of the
process would have after the same operations: the same value or `KeyError` for every key, and the
same entries, perhaps in another order. -/
theorem reads_as_plain {sha256 : String → String} {es : List (DictOp O)} {s : HashState O}
    (hvalues : ∀ e ∈ es, ∀ v ∈ e.values, v.WellFormed)
    (hharmless : StepsMeet (dictStep sha256) (ShortcutHarmless sha256) unwritten es)
    (hrun : exec (dictStep sha256) unwritten es = some s) :
    (∀ key, s.getitem key = ((es.foldl plainStep .empty).get? key).map .ok) ∧
      s.items.Perm ((es.foldl plainStep .empty).entries.map fun p => (p.1, .ok p.2)) := by
  obtain ⟨hhas, hwell⟩ : Has s.hash (es.foldl plainStep .empty) ∧
      ∀ p ∈ (es.foldl plainStep .empty).entries, p.2.WellFormed := by
    have hempty : Has (unwritten : HashState O).hash .empty := has_empty rfl
    have hnone : ∀ p ∈ (.empty : Dict String Json).entries, p.2.WellFormed := List.forall_mem_nil _
    -- from any hash that has what the dictionary has
    generalize (unwritten : HashState O) = s₀ at *
    generalize (.empty : Dict String Json) = d at *
    induction es generalizing s₀ d with
    | nil =>
      cases hrun
      exact ⟨hempty, hnone⟩
    | cons e es ih =>
      obtain ⟨hfirst, hrest⟩ := List.forall_mem_cons.mp hvalues
      obtain ⟨s₁, hstep, hrun⟩ := exec_cons_eq_some.mp hrun
      exact ih hrest s₁ (hharmless.2 s₁ hstep) hrun _ (wellFormed_step hnone hfirst)
        (has_step hempty hharmless.1 hstep)
  generalize es.foldl plainStep .empty = d at hhas hwell
  rw [has_iff] at hhas
  have hget : ∀ key, s.getitem key = (d.get? key).map .ok := by
    intro key
    rw [HashState.getitem, hhas key, Option.map_map]
    apply Option.map_congr
    intro v hv
    have hread := hwell (key, v) (Dict.mem_entries_iff.mpr hv)
    simp only [Function.comp_apply, dumpsValue, String.toList_ofList]
    exact loads_dumps standard_readable hread
  refine ⟨hget, ?_⟩
  rw [HashState.items]
  apply (List.perm_ext_iff_of_nodup (nodup_map_entries s.hash fun text => loads text.toList)
    (nodup_map_entries d .ok)).mpr
  rintro ⟨key, r⟩
  rw [mem_map_entries (f := .ok), ← hget key, HashState.getitem]
  exact mem_map_entries (f := fun text : String => loads text.toList)

/-- Two objects that write in turn. -/
def twoObjects : List (DictOp Bool) :=
  [.set true ⟨[("a", .int 1)], List.nodup_singleton _⟩, .setitem false "b" .null]

theorem reads_as_plain_two_objects : ∃ s : HashState Bool,
    exec (dictStep id) unwritten twoObjects = some s ∧
      (∀ key, s.getitem key = ((twoObjects.foldl plainStep .empty).get? key).map .ok) ∧
      s.items.Perm ((twoObjects.foldl plainStep .empty).entries.map fun p => (p.1, .ok p.2)) :=
  ⟨_, rfl, reads_as_plain (by
    simp only [twoObjects, List.forall_mem_cons]
    exact ⟨fun v hv => by cases List.mem_singleton.mp hv; exact .int 1,
      fun v hv => by cases List.mem_singleton.mp hv; exact .null, List.forall_mem_nil _⟩)
    ⟨Or.inr (Or.inl nofun), fun _ _ => ⟨trivial, fun _ _ => trivial⟩⟩ rfl⟩

end OpenLaunch.Sockets
