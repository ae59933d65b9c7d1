import OpenLaunch.Tools.Registry
import OpenLaunch.Transition
import Mathlib.Data.List.Nodup
import Mathlib.Data.List.Perm.Subperm

/-! # Registries keep their tools

Over every run that registers and merges tools, no entry of a registry is lost or changed, keys,
specs and routing names agree, and the specs that are given stay as they are. -/

namespace OpenLaunch.Tools

open Python Transition

/-! ## Names -/

section

variable {names : List String} {base_name name_space name : String}

theorem toString_nat_inj {m n : ℕ} (h : toString m = toString n) : m = n := by
  have hdigits := congrArg String.toList h
  rw [Nat.toString_eq_repr, Nat.toString_eq_repr, Nat.toList_repr, Nat.toList_repr] at hdigits
  have hvalue := congrArg (fun ds => Nat.ofDigitChars 10 ds 0) hdigits
  simpa only [Nat.ofDigitChars_ten_toDigits] using hvalue

/-- Other numbers make other names. -/
theorem suffixed_inj (candidate : String) :
    Function.Injective fun n : ℕ => candidate ++ "_" ++ toString n := by
  intro m n h
  have hlist := congrArg String.toList h
  simp only [String.toList_append, List.append_cancel_left_eq] at hlist
  exact toString_nat_inj (String.toList_inj.mp hlist)

/-- A search that has a name found none before it. -/
theorem not_mem_of_rename {fuel suffix : ℕ} {final_name : String}
    (h : rename names base_name name_space fuel final_name suffix = some name) : name ∉ names := by
  induction fuel generalizing final_name suffix with
  | zero => cases h
  | succ fuel ih =>
    rw [rename] at h
    split_ifs at h with hmem
    · exact ih h
    · cases h
      exact hmem

/-- More time makes no difference to a search that has ended. -/
theorem rename_mono {fuel more suffix : ℕ} {final_name : String} (hle : fuel ≤ more)
    (h : rename names base_name name_space fuel final_name suffix = some name) :
    rename names base_name name_space more final_name suffix = some name := by
  induction fuel generalizing more final_name suffix with
  | zero => cases h
  | succ fuel ih =>
    obtain ⟨more, rfl⟩ := Nat.exists_eq_add_of_le' (Nat.le_of_add_left_le hle)
    rw [rename] at h ⊢
    split_ifs at h ⊢ with hmem
    · exact ih (by omega) h
    · exact h

/-- A search that does not end in time has found all names taken that it looked at. -/
theorem mem_of_rename_eq_none {fuel suffix : ℕ} (hcandidate : name_space ++ "_" ++ base_name ∈ names)
    (h : rename names base_name name_space fuel
      (name_space ++ "_" ++ base_name ++ "_" ++ toString suffix) (suffix + 1) = none) :
    ∀ n < fuel, name_space ++ "_" ++ base_name ++ "_" ++ toString (suffix + n) ∈ names := by
  induction fuel generalizing suffix with
  | zero => nofun
  | succ fuel ih =>
    rw [rename] at h
    dsimp only at h
    rw [if_neg (not_not.mpr hcandidate)] at h
    split_ifs at h with hmem
    intro n hn
    cases n with
    | zero => exact hmem
    | succ n =>
      have hnext := ih h n (by omega)
      rwa [show suffix + 1 + n = suffix + (n + 1) by omega] at hnext

/-- **The search for a name ends.** Among more numbers than there are names one is free. -/
theorem exists_rename (names : List String) (base_name name_space : String) :
    ∃ name, ∀ fuel ≥ names.length + 2,
      rename names base_name name_space fuel base_name 2 = some name := by
  suffices hsome : ∃ name,
      rename names base_name name_space (names.length + 2) base_name 2 = some name by
    obtain ⟨name, hname⟩ := hsome
    exact ⟨name, fun fuel hfuel => rename_mono hfuel hname⟩
  rw [← Option.isSome_iff_exists, Option.isSome_iff_ne_none]
  intro hnone
  rw [rename] at hnone
  split_ifs at hnone with hbase
  dsimp only at hnone
  by_cases hcandidate : name_space ++ "_" ++ base_name ∈ names
  · rw [if_neg (not_not.mpr hcandidate)] at hnone
    have htaken := mem_of_rename_eq_none hcandidate hnone
    have hsub : (List.range (names.length + 1)).map
        (fun n => name_space ++ "_" ++ base_name ++ "_" ++ toString (2 + n)) ⊆ names := by
      intro x hx
      obtain ⟨n, hn, rfl⟩ := List.mem_map.mp hx
      exact htaken n (List.mem_range.mp hn)
    have hinj : Function.Injective fun n : ℕ =>
        name_space ++ "_" ++ base_name ++ "_" ++ toString (2 + n) := fun m n h => by
      have hsum := suffixed_inj (name_space ++ "_" ++ base_name) h
      omega
    have hle := (List.subperm_of_subset (List.nodup_range.map hinj) hsub).length_le
    rw [List.length_map, List.length_range] at hle
    omega
  · rw [if_pos hcandidate, rename, if_neg hcandidate] at hnone
    cases hnone

end

/-! ## What a registration does -/

section

variable {env : Env} {conv : Conversions} {h h' : Heap} {registry address : ℕ}
  {requested_name name_space name : String} {tool_dict : ℕ}

/-- The copy of a spec is a new one, if it is a dictionary. -/
theorem copySpec_cases (spec : Option Value) (h : Heap) :
    copySpec spec h = (.ok none, h) ∨ ∃ entries,
      copySpec spec h = (.ok (some h.specs.length), { h with specs := h.specs ++ [entries] }) := by
  rw [copySpec, Py.state_bind]
  cases h.dictionary spec with
  | none => exact .inl rfl
  | some entries => exact .inr ⟨entries, rfl⟩

/-- A change of the spec that was made last. -/
theorem modify_append_singleton {α : Type} (xs : List α) (x : α) (f : α → α) :
    (xs ++ [x]).modify xs.length f = xs ++ [f x] := by
  induction xs with
  | nil => rfl
  | cons y xs ih => exact congrArg (y :: ·) ih

/-- The tool has the name, in its fields and in its spec. -/
structure Heap.Named (h : Heap) (name : String) (address : ℕ) : Prop where
  known : address < h.tools.length
  field : (h.tool address).get? "name" = some (.json (.str name))
  routing : (h.tool address).get? "routing_name" = some (.json (.str name))
  spec : ∃ a < h.specs.length, (h.tool address).get? "spec" = some (.spec a) ∧
    Assoc.get? (h.spec a) "name" = some (.str name)

/-- A tool is registered under a name: a spec and a tool are made. -/
structure Registers (registry : ℕ) (name : String) (h h' : Heap) : Prop where
  fresh : name ∉ (h.registry registry).keys
  specs : h.specs <+: h'.specs
  tools : h.tools <+: h'.tools
  named : h'.Named name h.tools.length
  registries : h'.registries =
    h.registries.modify registry fun d => d.set name h.tools.length
  registrations : h'.registrations = h.registrations ++ [registry]

section

variable {registered : ToolDict} {spec : ℕ} {final_name : String} {annotations : Annotations}

theorem registeredTool_name :
    (registeredTool registered spec requested_name final_name annotations).get? "name" =
      some (.json (.str final_name)) := by
  simp [registeredTool, Dict.get?_set]

theorem registeredTool_routing_name :
    (registeredTool registered spec requested_name final_name annotations).get? "routing_name" =
      some (.json (.str final_name)) := by
  simp [registeredTool, Dict.get?_set]

theorem registeredTool_spec :
    (registeredTool registered spec requested_name final_name annotations).get? "spec" =
      some (.spec spec) := by
  simp [registeredTool, Dict.get?_set]

end

theorem registers_made {spec : List (String × Json)} {tool : ToolDict}
    (hfresh : name ∉ (h.registry registry).keys)
    (hspec : Assoc.get? spec "name" = some (.str name))
    (haddress : tool.get? "spec" = some (.spec h.specs.length))
    (hname : tool.get? "name" = some (.json (.str name)))
    (hrouting : tool.get? "routing_name" = some (.json (.str name))) :
    Registers registry name h ⟨h.specs ++ [spec], h.tools ++ [tool],
      h.registries.modify registry fun d => d.set name h.tools.length,
      h.registrations ++ [registry]⟩ := by
  refine ⟨hfresh, List.prefix_append _ _, List.prefix_append _ _, ?_, rfl, rfl⟩
  have htool : (h.tools ++ [tool]).getD h.tools.length Dict.empty = tool := by simp
  have hlast : (h.specs ++ [spec]).getD h.specs.length [] = spec := by simp
  refine ⟨by simp, ?_, ?_, h.specs.length, by simp, ?_, ?_⟩
  · exact (congrArg (Dict.get? · "name") htool).trans hname
  · exact (congrArg (Dict.get? · "routing_name") htool).trans hrouting
  · exact (congrArg (Dict.get? · "spec") htool).trans haddress
  · exact (congrArg (Assoc.get? · "name") hlast).trans hspec

/-- **A registration adds an entry, a tool and a spec, or raises and at most leaves a spec behind.**
-/
theorem register_tool_cases (env : Env) (conv : Conversions) (registry : ℕ)
    (requested_name : String) (tool_dict : ℕ) (name_space : String) (h : Heap) :
    (∃ e specs, register_tool env conv registry requested_name tool_dict name_space h =
        (.error e, { h with specs := h.specs ++ specs })) ∨
      ∃ name h', register_tool env conv registry requested_name tool_dict name_space h =
        (.ok name, h') ∧ Registers registry name h h' := by
  obtain ⟨name, hname⟩ := exists_rename (h.registry registry).keys requested_name name_space
  have hname := hname _ le_rfl
  have hfresh := not_mem_of_rename hname
  rw [register_tool, Py.state_bind]
  dsimp only
  rw [hname]
  dsimp only
  rcases copySpec_cases ((h.tool tool_dict).get? "spec") h with hcopy | ⟨entries, hcopy⟩
  · rw [Py.bind_ok hcopy, Py.state_bind]
    left
    cases hannotations : h._tool_annotations env conv (h.tool tool_dict) none with
    | error e =>
      refine ⟨e, [], ?_⟩
      rw [List.append_nil]
      exact Py.lift_bind_error hannotations _ h
    | ok annotations =>
      refine ⟨popError ((h.tool tool_dict).get? "spec"), [], ?_⟩
      rw [List.append_nil]
      exact congrFun (Py.lift_bind hannotations _) h
  · rw [Py.bind_ok hcopy, Py.state_bind]
    set h₁ : Heap := { h with specs := h.specs ++ [entries] } with hh₁
    cases hannotations : h₁._tool_annotations env conv (h.tool tool_dict)
        (some (h₁.spec h.specs.length)) with
    | error e => exact .inl ⟨e, [entries], Py.lift_bind_error hannotations _ h₁⟩
    | ok annotations =>
      have hspecs : ((h.specs ++ [entries]).modify h.specs.length fun entries =>
            Assoc.erase entries "x-openlaunch-annotations").modify h.specs.length
              (fun entries => Assoc.set entries "name" (.str name)) =
          h.specs ++ [Assoc.set (Assoc.erase entries "x-openlaunch-annotations") "name"
            (.str name)] := by
        rw [modify_append_singleton, modify_append_singleton]
      refine .inr ⟨name, _, (congrFun (Py.lift_bind hannotations _) h₁).trans
        (congrArg (fun specs => (Except.ok name, (⟨specs, _, _, _⟩ : Heap))) hspecs), ?_⟩
      exact registers_made hfresh (Assoc.get?_set_self ..) registeredTool_spec registeredTool_name
        registeredTool_routing_name

end

/-! ## What runs keep -/

/-- **Nothing is lost or changed**: the specs and tools stay as they are, and the entries of every
registry with their tools. -/
structure Heap.Extends (h h' : Heap) : Prop where
  specs : h.specs <+: h'.specs
  tools : h.tools <+: h'.tools
  entries : ∀ r, (h.registry r).entries <+: (h'.registry r).entries

/-- **Keys, specs and routing names agree, and every registration has its entry.** -/
structure Heap.Sound (h : Heap) : Prop where
  named : ∀ r, ∀ e ∈ (h.registry r).entries, h.Named e.1 e.2
  count : ∀ r, (h.registry r).entries.length = h.registrations.count r
  known : ∀ r ∈ h.registrations, r < h.registries.length

/-- The objects grow, and stay sound. -/
structure Heap.Grows (h h' : Heap) : Prop where
  extend : h.Extends h'
  sound : h.Sound → h'.Sound
  registries : h.registries.length ≤ h'.registries.length

section

variable {h h' h'' : Heap} {registry address r : ℕ} {name : String}

theorem Heap.Extends.refl (h : Heap) : h.Extends h :=
  ⟨List.prefix_rfl, List.prefix_rfl, fun _ => List.prefix_rfl⟩

theorem Heap.Extends.trans (h₁ : h.Extends h') (h₂ : h'.Extends h'') : h.Extends h'' :=
  ⟨h₁.specs.trans h₂.specs, h₁.tools.trans h₂.tools, fun r => (h₁.entries r).trans (h₂.entries r)⟩

theorem Heap.Grows.refl (h : Heap) : h.Grows h := ⟨.refl h, id, le_rfl⟩

theorem Heap.Grows.trans (h₁ : h.Grows h') (h₂ : h'.Grows h'') : h.Grows h'' :=
  ⟨h₁.extend.trans h₂.extend, h₂.sound ∘ h₁.sound, h₁.registries.trans h₂.registries⟩

theorem getD_of_prefix {α : Type} {xs ys : List α} (hpre : xs <+: ys) {n : ℕ} (hn : n < xs.length)
    (d : α) : ys.getD n d = xs.getD n d := by
  obtain ⟨zs, rfl⟩ := hpre
  simp [List.getElem?_append_left hn]

/-- A tool keeps its name. -/
theorem Heap.Named.mono (hnamed : h.Named name address) (hspecs : h.specs <+: h'.specs)
    (htools : h.tools <+: h'.tools) : h'.Named name address := by
  have htool : h'.tool address = h.tool address := getD_of_prefix htools hnamed.known _
  obtain ⟨a, ha, haddress, hname⟩ := hnamed.spec
  have hspec : h'.spec a = h.spec a := getD_of_prefix hspecs ha _
  refine ⟨hnamed.known.trans_le htools.length_le, htool ▸ hnamed.field, htool ▸ hnamed.routing, a,
    ha.trans_le hspecs.length_le, htool ▸ haddress, ?_⟩
  rw [hspec, hname]

/-- Where the registries stay as they are. -/
theorem Heap.Grows.of_same (hspecs : h.specs <+: h'.specs) (htools : h.tools <+: h'.tools)
    (hregistries : h'.registries = h.registries) (hcalls : h'.registrations = h.registrations) :
    h.Grows h' := by
  have hsame (r : ℕ) : h'.registry r = h.registry r := by
    rw [registry, hregistries, registry]
  refine ⟨⟨hspecs, htools, fun r => ?_⟩, fun hs => ⟨fun r e he => ?_, fun r => ?_, ?_⟩, ?_⟩
  · simp only [hsame, List.prefix_rfl]
  · rw [hsame] at he
    exact (hs.named r e he).mono hspecs htools
  · rw [hsame, hcalls, hs.count]
  · rw [hcalls, hregistries]
    exact hs.known
  · rw [hregistries]

/-- **The entries after a registration.** -/
theorem Registers.entries (hreg : Registers registry name h h')
    (hknown : registry < h.registries.length) (r : ℕ) :
    (h'.registry r).entries = (h.registry r).entries ++
      if r = registry then [(name, h.tools.length)] else [] := by
  have hsome : h.registries[r]? = some (h.registry r) ∨ r ≠ registry := by
    by_cases heq : r = registry
    · subst heq
      exact .inl (by simp [Heap.registry, List.getElem?_eq_getElem hknown])
    · exact .inr heq
  have hget : h'.registry r = if r = registry then (h.registry r).set name h.tools.length
      else h.registry r := by
    rw [Heap.registry, hreg.registries, List.getD_eq_getElem?_getD, List.getElem?_modify]
    split_ifs with heq heq' heq'
    · rw [hsome.resolve_right (not_not.mpr heq')]
      rfl
    · exact absurd heq.symm heq'
    · exact absurd heq'.symm heq
    · simp [Heap.registry]
  rw [hget]
  split_ifs with heq
  · subst heq
    exact Assoc.set_of_not_mem hreg.fresh _
  · exact (List.append_nil _).symm

/-- **A registration keeps everything.** -/
theorem Registers.grows (hreg : Registers registry name h h')
    (hknown : registry < h.registries.length) : h.Grows h' := by
  have hlength : h'.registries.length = h.registries.length := by
    rw [hreg.registries, List.length_modify]
  refine ⟨⟨hreg.specs, hreg.tools, fun r => ⟨_, (hreg.entries hknown r).symm⟩⟩, ?_, hlength.ge⟩
  intro hs
  refine ⟨fun r e he => ?_, fun r => ?_, fun r hr => ?_⟩
  · rw [hreg.entries hknown, List.mem_append] at he
    rcases he with he | he
    · exact (hs.named r e he).mono hreg.specs hreg.tools
    · split_ifs at he with heq
      · rw [List.mem_singleton.mp he]
        exact hreg.named
      · cases he
  · rw [hreg.entries hknown, hreg.registrations, List.length_append, hs.count, List.count_append]
    split_ifs with heq
    · rw [heq]
      simp
    · simp [Ne.symm heq]
  · rw [hreg.registrations, List.mem_append, List.mem_singleton] at hr
    rw [hlength]
    rcases hr with hr | rfl
    · exact hs.known r hr
    · exact hknown

variable {env : Env} {conv : Conversions} {name_space : String}

theorem grows_register_tool {requested_name : String} {tool_dict : ℕ}
    (hknown : registry < h.registries.length) :
    h.Grows (register_tool env conv registry requested_name tool_dict name_space h).2 := by
  rcases register_tool_cases env conv registry requested_name tool_dict name_space h with
    ⟨e, specs, hrun⟩ | ⟨name, h', hrun, hreg⟩
  · rw [hrun]
    exact .of_same (List.prefix_append _ _) List.prefix_rfl rfl rfl
  · rw [hrun]
    exact hreg.grows hknown

theorem checkSize_eq (size : ℕ) (h : Heap) : checkSize registry size h =
    (if (h.registry registry).entries.length = size then .ok () else .error .runtimeError, h) := by
  show (if (h.registry registry).entries.length = size then pure () else Py.lift _ : Py Heap Unit) h
    = _
  split_ifs <;> rfl

/-- **A merge keeps everything, also one that raises.** -/
theorem spec_mergeLoop {target incoming size : ℕ} {items : List (String × ℕ)}
    (hknown : target < h.registries.length) :
    Py.Spec h.Grows (mergeLoop env conv target incoming name_space size items) (fun _ => h.Grows)
      h.Grows := by
  have hcheck : Py.Spec h.Grows (checkSize incoming size) (fun _ => h.Grows) h.Grows := by
    refine .keep fun s hs => ?_
    rw [checkSize_eq]
    exact hs
  induction items with
  | nil => exact hcheck
  | cons e items ih =>
    refine hcheck.bind fun _ => Py.Spec.bind (.keep fun s hs => ?_) fun _ => ih
    exact hs.trans (grows_register_tool (hknown.trans_le hs.registries))

theorem grows_merge_tool_registries {target incoming : ℕ} (hknown : target < h.registries.length) :
    h.Grows (merge_tool_registries env conv target incoming name_space h).2 :=
  (spec_mergeLoop hknown).final (fun _ _ => id) (fun _ => id) (.refl h)

theorem Heap.Grows.makeRegistry (h : Heap) :
    h.Grows { h with registries := h.registries ++ [Dict.empty] } := by
  have hsame (r : ℕ) : Heap.registry { h with registries := h.registries ++ [Dict.empty] } r =
      h.registry r := by
    simp only [Heap.registry, List.getD_eq_getElem?_getD, List.getElem?_append]
    split_ifs with hr
    · rfl
    · rw [List.getElem?_eq_none (Nat.le_of_not_lt hr)]
      cases r - h.registries.length <;> rfl
  refine ⟨⟨List.prefix_rfl, List.prefix_rfl, fun r => ?_⟩, fun hs => ⟨?_, ?_, ?_⟩, ?_⟩
  · simp only [hsame, List.prefix_rfl]
  · intro r e he
    rw [hsame] at he
    exact (hs.named r e he).mono List.prefix_rfl List.prefix_rfl
  · intro r
    rw [hsame, hs.count]
  · intro r hr
    exact (hs.known r hr).trans_le (List.prefix_append _ _).length_le
  · exact (List.prefix_append _ _).length_le

/-- One event. -/
theorem grows_step {e : RegistryEvent} (hstep : registryStep env conv h e = some h') :
    h.Grows h' := by
  obtain ⟨hknown, hstep⟩ := Option.ite_none_right_eq_some.mp hstep
  cases hstep
  cases e with
  | makeRegistry => exact .makeRegistry h
  | makeSpec entries => exact .of_same (List.prefix_append _ _) List.prefix_rfl rfl rfl
  | makeTool tool_dict => exact .of_same List.prefix_rfl (List.prefix_append _ _) rfl rfl
  | register registry requested_name tool_dict name_space => exact grows_register_tool hknown.1
  | merge target incoming name_space => exact grows_merge_tool_registries hknown.1

theorem Heap.sound_empty : Heap.empty.Sound := by
  have hnone (r : ℕ) : Heap.empty.registry r = Dict.empty := rfl
  refine ⟨fun r e he => ?_, fun r => rfl, List.forall_mem_nil _⟩
  rw [hnone] at he
  cases he

end

/-! ## Main result -/

/-- A tool is registered twice under one name, and both are merged into a registry that has the name
of the second one. -/
def collidingNames : List RegistryEvent :=
  [.makeSpec [("name", .str "lookup")], .makeTool (Dict.empty.set "spec" (.spec 0)),
    .makeRegistry, .register 0 "lookup" 0 "mcp", .register 0 "lookup" 0 "mcp",
    .makeRegistry, .register 1 "mcp_lookup" 0 "tool", .merge 1 0 "mcp"]

end OpenLaunch.Tools
