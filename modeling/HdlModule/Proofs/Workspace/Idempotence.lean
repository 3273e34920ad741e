import HdlModule.Proofs.Content.Status
import HdlModule.Proofs.Workspace.Custody

/-!
# Texts that are given again

A valid content that is given its own text does not examine it. Nothing is lost by that. An
examination would accept the text, whatever the names of the design are by now, as the name of
the content itself may be taken. It would keep every handle in its place and pass it on to the
parameter that has it already, so the registry would stay as it is. The listeners would be told of
the end of an edit, and of no other name.

This rests on what holds behind every run: contents that are valid are in step with their texts
and have no reason for a refusal, and the registry mirrors the contents.

## Main definitions

* `Content.unmarked`: a content that does not say that it is valid
* `Workspace.Same`: two workspaces that cannot be told apart

## Main results

* `Workspace.Reached.exists_history`: contents of a workspace have come about by operations
* `Registry.foldl_refresh_self`: handles that are passed on to their own parameters
* `Content.review_unmarked`: the examination of a text that was accepted before
* `Workspace.step_setText_self`: a valid content that is given its own text
-/

namespace HdlModule

/-! ### Contents of a workspace -/

namespace Workspace

variable {w : Workspace} {slot : String} {c : Content}

/-- What a command makes of a content with a history has a history. -/
theorem exists_history_stepOn {es : List Effect} (hc : w.content? slot = some c)
    (h : History c es) (command : Command) :
    ∃ c' es', (w.stepOn slot c command).2.2.content? slot = some c' ∧ History c' es' := by
  cases command with
  | setText text => exact ⟨_, _, content?_settle_self, h.perform w.env w.supply (.setText text)⟩
  | rename name => exact ⟨_, _, content?_settle_self, h.perform w.env w.supply (.rename name)⟩
  | storeText text => exact ⟨_, _, content?_put_self, h.perform w.env w.supply (.storeText text)⟩
  | setAppearance appearance =>
    exact ⟨_, _, content?_put_self, h.perform w.env w.supply (.setAppearance appearance)⟩
  | subscribe tag => exact ⟨_, _, content?_put_self, h.perform w.env w.supply (.subscribe tag)⟩
  | unsubscribe tag =>
    rw [stepOn]
    split
    · next entry id hfind =>
      exact ⟨_, _, content?_put_self, h.perform w.env w.supply (.unsubscribe id)⟩
    · exact ⟨c, es, hc, h⟩
  | parseValue parameter text =>
    rw [stepOn]
    split <;> exact ⟨c, es, hc, h⟩
  | _ => exact ⟨c, es, hc, h⟩

/-- Every content of the workspace has come about by operations. -/
def Recorded (w : Workspace) : Prop :=
  ∀ slot c, w.content? slot = some c → ∃ es, History c es

theorem recorded_step (hw : w.Recorded) (slot : String) (command : Command) :
    (w.step slot command).2.2.Recorded := by
  intro other c' hc'
  by_cases hother : other = slot
  · subst hother
    cases command with
    | create name =>
      obtain rfl : _ = c' := Option.some.inj (content?_settle_self.symm.trans hc')
      exact ⟨_, .create w.env w.supply name⟩
    | parse name text =>
      obtain rfl : _ = c' := Option.some.inj (content?_settle_self.symm.trans hc')
      exact ⟨_, .ofText w.env w.supply name text⟩
    | drop => cases content?_clear_self.symm.trans hc'
    | insertName _ | removeName _ | renameName _ _ | environmentSummary => exact hw _ _ hc'
    | _ =>
      simp only [step] at hc'
      cases hc : w.content? other with
      | none =>
        rw [hc] at hc'
        cases hc.symm.trans hc'
      | some c =>
        rw [hc] at hc'
        obtain ⟨es, h⟩ := hw _ _ hc
        obtain ⟨c'', es', hc'', h'⟩ := exists_history_stepOn hc h _
        obtain rfl : c'' = c' := Option.some.inj (hc''.symm.trans hc')
        exact ⟨es', h'⟩
  · rw [content?_step_of_ne hother] at hc'
    exact hw _ _ hc'

theorem recorded_run (hw : w.Recorded) (happenings : List Happening) :
    (w.run happenings).Recorded := by
  induction happenings generalizing w with
  | nil => exact hw
  | cons happening rest ih =>
    apply ih
    cases happening with
    | command slot command => exact recorded_step hw slot command
    | environment env => exact hw

/-- **Every content of a workspace has come about by operations**, whatever the run was. -/
theorem Reached.exists_history (hw : w.Reached) (hc : w.content? slot = some c) :
    ∃ es, History c es := by
  obtain ⟨env, happenings, rfl⟩ := hw
  refine recorded_run ?_ happenings slot c hc
  intro slot c hstart
  cases hstart

end Workspace

/-! ### Attributes that are refreshed with their own parameters -/

namespace Registry

variable {r : Registry} {p : Parameter} {h : Handle}

/-- A handle that is passed on to the parameter in its attribute changes nothing. -/
theorem refresh_self (hr : r.handles.Nodup) (hget : r.get? h = some (.ofParameter p)) :
    r.refresh h p = r := by
  obtain ⟨entry, hfind, hattribute⟩ := Option.map_eq_some_iff.1 hget
  have hkey : entry.1 = h := by simpa using List.find?_some hfind
  have hentries : r.entries.map (fun e => if e.1 = h then (h, e.2.refresh p) else e) =
      r.entries.map id := by
    refine List.map_congr_left fun other hother => ?_
    by_cases hne : other.1 = h
    · have heq : other = entry :=
        List.inj_on_of_nodup_map hr hother (List.mem_of_find?_eq_some hfind) (hne.trans hkey.symm)
      rw [if_pos hne, heq, hattribute, ← hkey, id_eq]
      exact Prod.ext rfl hattribute.symm
    · rw [if_neg hne, id_eq]
  rw [refresh, hentries, List.map_id]

/-- Handles that are passed on to the parameters in their attributes change nothing. -/
theorem foldl_refresh_self {entries : List (Parameter × Handle)} (hr : r.handles.Nodup)
    (hget : ∀ entry ∈ entries, r.get? entry.2 = some (.ofParameter entry.1)) :
    (entries.map fun entry => BinderCall.refresh entry.2 entry.1).foldl follow r = r := by
  induction entries with
  | nil => rfl
  | cons entry entries ih =>
    rw [List.forall_mem_cons] at hget
    rw [List.map_cons, List.foldl_cons, follow, refresh_self hr hget.1]
    exact ih hget.2

end Registry

namespace Journal

variable {j : Journal}

theorem Mirrors.nodup_handles (hj : j.Mirrors) : j.workspace.registry.handles.Nodup := by
  rw [hj.handles]
  exact hj.nodup_bound.filter _

end Journal

/-! ### The examination of a text that was accepted before -/

namespace Content

variable {env : Environment} {supply : Nat} {c : Content}

/-- The content that does not say that it is valid. -/
def unmarked (c : Content) : Content := { c with isValid := false }

/-- A text that is in step with its content is accepted if the checker does not object. The name
of the content may be taken in the design. -/
theorem examine_unmarked (hc : InStep c) (hcheck : env.check c.text = .ok ()) :
    ∃ i, c.unmarked.examine env = .ok i ∧ i.name = c.name ∧ i.ports = c.ports ∧
      i.parameters = c.parameters.map Prod.fst := by
  obtain ⟨⟨i, hread, hname, hports, hparameters⟩, hlegal, hall⟩ := hc
  refine ⟨i, examine_eq_ok_iff.2 ⟨hcheck, hread, hname ▸ hlegal, fun hne => absurd hname hne, ?_⟩,
    hname, hports, hparameters⟩
  intro p hp
  rw [hparameters] at hp
  obtain ⟨entry, hentry, rfl⟩ := List.mem_map.1 hp
  exact hall entry hentry

/-- Parameters that are read again keep their handles. -/
theorem reconciled_map_fst :
    c.reconciled supply (c.parameters.map Prod.fst) =
      ⟨c.parameters, c.parameters.map fun entry => .refresh entry.2 entry.1⟩ :=
  reconcile_self (fun _ => Parameter.sameIdentity_self) _ _ _

/-- **The examination of a text that was accepted before** accepts it again. The content is what
it was, each handle is passed on to its own parameter, and the end of the edit is announced. -/
theorem review_unmarked (supply : Nat) (hc : InStep c) (hvalid : c.isValid = true)
    (hcleared : Cleared c) (hcheck : env.check c.text = .ok ()) :
    (c.unmarked.review env supply).result = .ok () ∧
      (c.unmarked.review env supply).content = c ∧
      (c.unmarked.review env supply).supply = supply ∧
      (c.unmarked.review env supply).effects.filterMap Effect.notice? =
        c.listeners.rounds [.contentSet] ∧
      (c.unmarked.review env supply).effects.filterMap Effect.binderCall? =
        c.parameters.map fun entry => .refresh entry.2 entry.1 := by
  obtain ⟨i, hexamine, hname, hports, hparameters⟩ := examine_unmarked hc hcheck
  have hreconciled : c.unmarked.reconciled supply i.parameters =
      ⟨c.parameters, c.parameters.map fun entry => .refresh entry.2 entry.1⟩ := by
    rw [hparameters]
    exact reconciled_map_fst (c := c)
  have hcalls : (c.unmarked.review env supply).effects.filterMap Effect.binderCall? =
      (c.unmarked.reconciled supply i.parameters).calls := by
    rw [revises_review.calls, hexamine]
    rfl
  refine ⟨?_, ?_, ?_, (announces_review_of_kept supply hexamine hname).notices, ?_⟩
  · rw [review_of_ok hexamine]
  · rw [review_of_ok hexamine, adopt, hreconciled, hname, hports, settle, ← hcleared hvalid]
    simp only [unmarked, ← hvalid]
  · rw [review_of_ok hexamine, hreconciled]
    simp [Reconciled.bound, BinderCall.isBind]
  · rw [hcalls, hreconciled]

/-- A content that does not say that it is valid examines its own text. -/
theorem setText_unmarked : c.unmarked.setText env supply c.text = c.unmarked.review env supply := by
  rw [setText_eq, if_neg fun h => nomatch h.1]
  rfl

end Content

/-! ### The text of a valid content -/

namespace Workspace

variable {w : Workspace} {slot : String} {c : Content}

/-- Two workspaces that cannot be told apart. -/
structure Same (w w' : Workspace) : Prop where
  env : w'.env = w.env
  registry : w'.registry = w.registry
  supply : w'.supply = w.supply
  checks : w'.checks = w.checks
  subscriptions : w'.subscriptions = w.subscriptions
  content? : ∀ slot, w'.content? slot = w.content? slot

/-- A workspace is not changed by the content that is in a slot. -/
theorem content?_put_of_content? (hc : w.content? slot = some c) (other : String) :
    (w.put slot c).content? other = w.content? other := by
  by_cases hother : other = slot
  · rw [hother, content?_put_self, hc]
  · exact content?_put_of_ne hother

/-- **A valid content that is given its own text** does nothing, and says that all is well. Had it
examined the text, with a checker that does not object, it would have come to the same: the text
is accepted, the content is what it was, no handle is bound or given up, the listeners are told of
the end of the edit only, and the registry stays. -/
theorem step_setText_self (hw : w.Reached) (hc : w.content? slot = some c)
    (hvalid : c.isValid = true) :
    ((w.step slot (.setText c.text)).1 = .edited (.ok ()) ∧
      (w.step slot (.setText c.text)).2.1 = [] ∧ w.Same (w.step slot (.setText c.text)).2.2) ∧
    ∀ env : Environment, env.check c.text = .ok () →
      let outcome := c.unmarked.setText env w.supply c.text
      let after := (w.settle slot [] outcome).2
      outcome.result = .ok () ∧ outcome.content = c ∧ outcome.supply = w.supply ∧
        outcome.effects.filterMap Effect.notice? = c.listeners.rounds [.contentSet] ∧
        outcome.effects.filterMap Effect.binderCall? =
          c.parameters.map (fun entry => .refresh entry.2 entry.1) ∧
        after.registry = w.registry ∧ ∀ other, after.content? other = w.content? other := by
  obtain ⟨es, h⟩ := hw.exists_history hc
  constructor
  · have houtcome : c.setText w.env w.supply c.text = ⟨.ok (), c, w.supply, []⟩ := by
      rw [Content.setText_eq, if_pos ⟨hvalid, rfl⟩]
    have hstep : w.step slot (.setText c.text) =
        (.edited (.ok ()), w.settle slot [] (c.setText w.env w.supply c.text)) := by
      simp only [step, hc, stepOn, houtcome]
    rw [hstep, houtcome]
    exact ⟨rfl, rfl, rfl, rfl, rfl, rfl, rfl, content?_put_of_content? hc⟩
  · intro env hcheck outcome after
    have hinstep : InStep c := h.inStep_of_isValid.1 hvalid
    obtain ⟨hresult, hcontent, hsupply, hnotices, hcalls⟩ :=
      Content.review_unmarked w.supply hinstep hvalid h.cleared_and_shows.1 hcheck
    rw [← Content.setText_unmarked] at hresult hcontent hsupply hnotices hcalls
    refine ⟨hresult, hcontent, hsupply, hnotices, hcalls, ?_, ?_⟩
    · obtain ⟨j, hj, rfl⟩ := hw.exists_journal
      show (outcome.effects.filterMap Effect.binderCall?).foldl Registry.follow _ = _
      rw [hcalls]
      refine Registry.foldl_refresh_self hj.mirrors.nodup_handles fun entry hentry => ?_
      exact hj.mirrors.get?_of_mem slot c ((content?_eq_some_iff hj.slots).1 hc) _ _ hentry
    · intro other
      show (w.put slot outcome.content).content? other = w.content? other
      rw [hcontent]
      exact content?_put_of_content? hc other

/-- A module with two parameters of one identity, whose name has been taken in the design since
its text was accepted. -/
theorem step_setText_self_taken :
    ∃ w c, Reached w ∧ w.content? "a" = some c ∧ c.isValid = true ∧
      c.parameters.map Prod.snd = [⟨0⟩, ⟨1⟩] ∧ c.name ∈ w.env.names.toList ∧
      w.Same (w.step "a" (.setText c.text)).2.2 ∧
      (c.unmarked.setText w.env w.supply c.text).result = .ok () ∧
      (c.unmarked.setText w.env w.supply c.text).content = c ∧
      (w.settle "a" [] (c.unmarked.setText w.env w.supply c.text)).2.registry = w.registry := by
  let w := (start .initial).run
    [.command "a" (.parse "A" "module A#(N=1,N=1)();endmodule"), .command "a" (.insertName "A")]
  have hw : w.Reached := ⟨_, _, rfl⟩
  have hslot : (w.content? "a").any (fun c => c.isValid ∧
      c.parameters.map Prod.snd = [⟨0⟩, ⟨1⟩] ∧ c.name ∈ w.env.names.toList) = true := by
    decide +kernel
  obtain ⟨c, hc, hfacts⟩ := (Option.any_eq_true _ _).1 hslot
  obtain ⟨hvalid, hhandles, htaken⟩ := of_decide_eq_true hfacts
  obtain ⟨⟨-, -, hsame⟩, hslow⟩ := step_setText_self hw hc hvalid
  obtain ⟨hresult, hcontent, -, -, -, hregistry, -⟩ := hslow w.env rfl
  exact ⟨w, c, hw, hc, hvalid, hhandles, htaken, hsame, hresult, hcontent, hregistry⟩

end Workspace

end HdlModule
