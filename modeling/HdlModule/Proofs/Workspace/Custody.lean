import HdlModule.Proofs.Workspace.Journal

/-!
# Custody of handles

Contents share a registry, and each of them holds some of its handles. Nobody looks after the
whole, and the registry does not complain about a call for a handle that it does not know. Still
no handle is lost or given up twice: behind every run the registry has an attribute for each
handle that is held, and for no other, and the calls about a handle are one binding, some passing
on, and a release once nobody holds it any more.

Both follow from the age of a handle in the ledger of the run. A handle that is alive is held by
one content for the last parameter that it was passed on to, and that parameter is the one in its
attribute.

## Main definitions

* `Journal.Mirrors`: the registry mirrors the contents
* `Journal.boundHandles`: the handles that were bound, in their order

## Main results

* `Journal.mirrors_run`: behind every run, the registry mirrors the contents
* `Journal.about_run`: the calls about a handle in a run
-/

namespace HdlModule

namespace Journal

/-- The handles that were bound, in their order. -/
def boundHandles (j : Journal) : List Handle := j.calls.filterMap (·.2.bound?)

/-- The registry has an attribute for each parameter of the contents, under the handle of that
parameter, and it has no others. -/
structure Mirrors (j : Journal) : Prop where
  /-- The handles of the registry are those that contents hold. -/
  mem_handles_iff : ∀ h, h ∈ j.workspace.registry.handles ↔ h ∈ j.workspace.held
  /-- No handle is held by two parameters. -/
  nodup_held : j.workspace.held.Nodup
  /-- No handle is bound twice. -/
  nodup_bound : j.boundHandles.Nodup
  /-- The registry lists the handles in the order in which they were bound. -/
  handles : j.workspace.registry.handles = j.boundHandles.filter (· ∈ j.workspace.held)
  /-- The attribute of a handle is that of the parameter that holds it. -/
  get?_of_mem : ∀ slot c, (slot, c) ∈ j.workspace.contents → ∀ p h, (p, h) ∈ c.parameters →
    j.workspace.registry.get? h = some (Attribute.ofParameter p)

section Consistent

variable {j : Journal} {t : Tenant} {slot : String} {c : Content} {p : Parameter} {h : Handle}

/-! ### Holders in the ledger -/

theorem mem_holdings_of_mem_contents (hj : j.Consistent) (hc : (slot, c) ∈ j.workspace.contents)
    (hp : (p, h) ∈ c.parameters) : (p, h) ∈ j.ledger.holdings (j.tenant slot) := by
  rw [holdings_ledger_tenant,
    Workspace.parametersIn_of_content? ((Workspace.content?_eq_some_iff hj.slots).2 hc)]
  exact hp

/-- Who holds something is still in its slot. -/
theorem eq_tenant_of_mem_holdings (hp : (p, h) ∈ j.ledger.holdings t) :
    t = j.tenant t.slot ∧ (p, h) ∈ j.workspace.parametersIn t.slot := by
  by_cases hnumber : t.number = j.tenancies t.slot
  · refine ⟨by rw [tenant, ← hnumber], ?_⟩
    rwa [holdings_ledger, if_pos hnumber] at hp
  · simp [holdings_ledger_of_ne hnumber] at hp

theorem mem_held_iff (hj : j.Consistent) :
    h ∈ j.workspace.held ↔ ∃ t p, (p, h) ∈ j.ledger.holdings t := by
  rw [Workspace.mem_held_iff hj.slots]
  constructor
  · rintro ⟨slot, p, hp⟩
    rw [← holdings_ledger_tenant] at hp
    exact ⟨j.tenant slot, p, hp⟩
  · rintro ⟨t, p, hp⟩
    exact ⟨t.slot, p, (eq_tenant_of_mem_holdings hp).2⟩

theorem mem_holdings_of_entriesOf_eq (hheld : j.ledger.entriesOf t h = [(p, h)]) :
    (p, h) ∈ j.ledger.holdings t := by
  have hentry : (p, h) ∈ j.ledger.entriesOf t h := by
    rw [hheld]
    exact List.mem_singleton_self _
  exact (List.mem_filter.1 hentry).1

/-- Nobody holds a handle if no owner in the ledger has an entry with it. -/
theorem not_mem_held (hj : j.Consistent) (hheld : ∀ t, j.ledger.entriesOf t h = []) :
    h ∉ j.workspace.held := by
  intro hmem
  obtain ⟨t, p, hp⟩ := (mem_held_iff hj).1 hmem
  have hentry : (p, h) ∈ j.ledger.entriesOf t h := List.mem_filter.2 ⟨hp, by simp⟩
  rw [hheld t] at hentry
  cases hentry

/-! ### Attributes of handles -/

/-- The calls about a handle, without those who made them. -/
theorem filter_handle_calls :
    (j.calls.map Prod.snd).filter (·.handle = h) = (j.ledger.about h).map Prod.snd := by
  rw [List.filter_map]
  rfl

/-- A parameter that holds a handle is the one in its attribute. -/
theorem get?_of_mem_holdings (hj : j.Consistent) (hp : (p, h) ∈ j.ledger.holdings t) :
    j.workspace.registry.get? h = some (Attribute.ofParameter p) := by
  have hentry : (p, h) ∈ j.ledger.entriesOf t h := List.mem_filter.2 ⟨hp, by simp⟩
  rw [hj.registry]
  cases hj.ledger.standing h with
  | unborn _ _ hheld => simp [hheld t] at hentry
  | released _ _ _ _ _ _ hheld => simp [hheld t] at hentry
  | live t' p₀ qs hnumber hqs hcalls hheld hothers =>
    by_cases ht : t = t'
    · rw [ht, hheld, List.mem_singleton, Prod.mk.injEq] at hentry
      rw [hentry.1]
      apply Registry.get?_of_bind_refresh
      · rw [filter_handle_calls, hcalls]
        simp [Function.comp_def]
      · exact hqs
    · simp [hothers t ht] at hentry

/-- A handle that nobody holds has no attribute. -/
theorem get?_of_not_mem_held (hj : j.Consistent) (hheld : h ∉ j.workspace.held) :
    j.workspace.registry.get? h = none := by
  rw [hj.registry]
  cases hj.ledger.standing h with
  | unborn _ hcalls _ =>
    apply Registry.get?_of_absent
    rw [filter_handle_calls, hcalls]
    rfl
  | released t p qs _ _ hcalls _ =>
    apply Registry.get?_of_release
    rw [filter_handle_calls, hcalls, List.map_append]
    rfl
  | live t p qs _ _ _ hentries _ =>
    exact absurd ((mem_held_iff hj).2 ⟨t, _, mem_holdings_of_entriesOf_eq hentries⟩) hheld

theorem isSome_get?_iff (hj : j.Consistent) :
    (j.workspace.registry.get? h).isSome = true ↔ h ∈ j.workspace.held := by
  constructor
  · intro hsome
    by_contra hheld
    rw [get?_of_not_mem_held hj hheld] at hsome
    cases hsome
  · intro hheld
    obtain ⟨t, p, hp⟩ := (mem_held_iff hj).1 hheld
    rw [get?_of_mem_holdings hj hp]
    rfl

/-! ### The registry mirrors the contents -/

theorem nodup_boundHandles (hj : j.Consistent) : j.boundHandles.Nodup := by
  have hbound : j.boundHandles = (List.range j.workspace.supply).map Handle.mk := hj.ledger.bound
  rw [hbound]
  exact List.nodup_range.map fun _ _ hab => congrArg Handle.number hab

/-- The contents hold different handles, each content for itself and all of them together. -/
theorem nodup_held (hj : j.Consistent) : j.workspace.held.Nodup := by
  apply List.nodup_flatMap.2
  constructor
  · rintro ⟨slot, c⟩ hc
    have hparameters : j.ledger.holdings (j.tenant slot) = c.parameters := by
      rw [holdings_ledger_tenant,
        Workspace.parametersIn_of_content? ((Workspace.content?_eq_some_iff hj.slots).2 hc)]
    rw [← hparameters]
    exact hj.ledger.nodup_handles _
  · have hslots : j.workspace.contents.Pairwise fun a b => a.1 ≠ b.1 := List.pairwise_map.1 hj.slots
    refine hslots.imp_of_mem ?_
    rintro ⟨slot, c⟩ ⟨slot', c'⟩ hc hc' hne h hh hh'
    -- a handle in both would belong to one slot
    obtain ⟨⟨p, h⟩, hp, rfl⟩ := List.mem_map.1 hh
    obtain ⟨⟨p', h'⟩, hp', rfl⟩ := List.mem_map.1 hh'
    have howner := (hj.ledger.standing h').owner_unique (mem_holdings_of_mem_contents hj hc hp)
      (mem_holdings_of_mem_contents hj hc' hp')
    exact hne (congrArg Tenant.slot howner)

theorem Consistent.mirrors (hj : j.Consistent) : j.Mirrors where
  mem_handles_iff := fun h => by rw [Registry.mem_handles_iff, isSome_get?_iff hj]
  nodup_held := nodup_held hj
  nodup_bound := nodup_boundHandles hj
  handles := by
    have hbound : (j.calls.map Prod.snd).filterMap BinderCall.bound? = j.boundHandles :=
      List.filterMap_map ..
    have hnodup := nodup_boundHandles hj
    rw [← hbound] at hnodup
    have hhandles := Registry.handles_foldl_follow hnodup
    rw [← hj.registry, hbound] at hhandles
    rw [hhandles]
    refine List.filter_congr fun h _ => ?_
    rw [Bool.eq_iff_iff, isSome_get?_iff hj, decide_eq_true_iff]
  get?_of_mem := by
    intro slot c hc p h hp
    exact get?_of_mem_holdings hj (mem_holdings_of_mem_contents hj hc hp)

end Consistent

/-- **Behind every run, the registry mirrors the contents.** -/
theorem mirrors_run (env : Environment) (happenings : List Happening) :
    ((start env).run happenings).Mirrors :=
  (consistent_run (consistent_start env) happenings).mirrors

/-! ### The calls about a handle -/

section Consistent

variable {j : Journal} {t : Tenant} {slot : String} {p q : Parameter} {h : Handle}

/-- A handle is released if and only if it is not held, once there has been a call about it. -/
theorem release_mem_about_iff (hj : j.Consistent) (habout : j.about h ≠ []) :
    (∃ t, (t, .release h) ∈ j.about h) ↔ h ∉ j.workspace.held := by
  cases hj.ledger.standing h with
  | unborn _ hcalls _ => exact absurd hcalls habout
  | released t p qs _ _ hcalls hheld =>
    refine iff_of_true ⟨t, ?_⟩ (not_mem_held hj hheld)
    rw [show j.about h = _ from hcalls]
    exact List.mem_append_right _ (List.mem_singleton_self _)
  | live t p qs _ _ hcalls hheld _ =>
    refine iff_of_false ?_ (not_not.2 ?_)
    · rintro ⟨t', hmem⟩
      rw [show j.about h = _ from hcalls] at hmem
      simp at hmem
    · exact (mem_held_iff hj).2 ⟨t, _, mem_holdings_of_entriesOf_eq hheld⟩

/-- What is held later is held by the same content, and for a parameter of the same identity. -/
theorem owner_stays {j' : Journal} {t' : Tenant} {p' : Parameter} (hj : j.Consistent)
    (hj' : j'.Consistent) (hcalls : j.calls <+: j'.calls) (hp : (p, h) ∈ j.ledger.holdings t)
    (hp' : (p', h) ∈ j'.ledger.holdings t') : t' = t ∧ p'.sameIdentity p = true := by
  obtain ⟨p₀, hhead, hsame⟩ := (hj.ledger.standing h).of_mem hp
  obtain ⟨p₀', hhead', hsame'⟩ := (hj'.ledger.standing h).of_mem hp'
  obtain ⟨later, hlater⟩ : j.ledger.about h <+: j'.ledger.about h := hcalls.filter _
  rw [← hlater, List.head?_append, hhead] at hhead'
  cases hhead'
  exact ⟨rfl, Parameter.sameIdentity_trans hsame' (Parameter.sameIdentity_symm hsame)⟩

theorem about_ne_nil (hj : j.Consistent) (hp : (p, h) ∈ j.ledger.holdings t) :
    j.about h ≠ [] := by
  obtain ⟨p₀, hhead, -⟩ := (hj.ledger.standing h).of_mem hp
  intro hnil
  rw [show j.ledger.about h = [] from hnil] at hhead
  cases hhead

theorem about_ne_nil_later {j' : Journal} (hcalls : j.calls <+: j'.calls)
    (habout : j.about h ≠ []) : j'.about h ≠ [] := by
  have hprefix : j.about h <+: j'.about h := hcalls.filter _
  intro hnil
  rw [hnil, List.prefix_nil] at hprefix
  exact habout hprefix

/-- A handle that is not held any more never comes back. -/
theorem not_mem_held_later {j' : Journal} (hj : j.Consistent) (hj' : j'.Consistent)
    (hcalls : j.calls <+: j'.calls) (habout : j.about h ≠ []) (hheld : h ∉ j.workspace.held) :
    h ∉ j'.workspace.held := by
  have hprefix : j.about h <+: j'.about h := hcalls.filter _
  obtain ⟨t, hrelease⟩ := (release_mem_about_iff hj habout).2 hheld
  apply (release_mem_about_iff hj' (about_ne_nil_later hcalls habout)).1
  exact ⟨t, hprefix.subset hrelease⟩

end Consistent

/-- **The calls about a handle in a run.** There are none about a handle that has not been bound.
Otherwise the handle was bound for one content, which passed it on among parameters of the same
identity, and gave it up once if and only if no content holds it any more. No other content ever
holds it. -/
theorem about_run (env : Environment) (happenings : List Happening) (h : Handle) :
    let j := (start env).run happenings
    (j.workspace.supply ≤ h.number ∧ j.about h = [] ∧ h ∉ j.workspace.held) ∨
      (h.number < j.workspace.supply ∧ ∃ (t : Tenant) (p : Parameter) (qs : List Parameter),
        (∀ q ∈ qs, q.sameIdentity p = true) ∧
        j.about h = (t, .bind h p) :: qs.map (fun q => (t, .refresh h q)) ++
          (if h ∈ j.workspace.held then [] else [(t, .release h)]) ∧
        ∀ slot q, (q, h) ∈ j.workspace.parametersIn slot → j.tenant slot = t) := by
  intro j
  have hj : j.Consistent := consistent_run (consistent_start env) happenings
  cases hj.ledger.standing h with
  | unborn hnumber hcalls hheld => exact Or.inl ⟨hnumber, hcalls, not_mem_held hj hheld⟩
  | released t p qs hnumber hqs hcalls hheld =>
    refine Or.inr ⟨hnumber, t, p, qs, hqs, ?_, ?_⟩
    · rw [if_neg (not_mem_held hj hheld)]
      exact hcalls
    · intro slot q hq
      have hmem := (Workspace.mem_held_iff hj.slots).2 ⟨slot, q, hq⟩
      exact absurd hmem (not_mem_held hj hheld)
  | live t p qs hnumber hqs hcalls hheld hothers =>
    have hmem := mem_holdings_of_entriesOf_eq hheld
    refine Or.inr ⟨hnumber, t, p, qs, hqs, ?_, ?_⟩
    · rw [if_pos ((mem_held_iff hj).2 ⟨t, _, hmem⟩), List.append_nil]
      exact hcalls
    · intro slot q hq
      rw [← holdings_ledger_tenant] at hq
      exact (hj.ledger.standing h).owner_unique hq hmem

end Journal

end HdlModule
