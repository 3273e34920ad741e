import HdlModule.Proofs.Content.Effects
import HdlModule.Proofs.Content.Examine

/-!
# Histories of contents

A content comes into being by one of two operations and goes through any number of others. Between
two operations everything outside the content may change: the settings, the checker, the names of
the design, the handles that are still free. A history records the effects of all operations, and
with them each content that a listener saw.

A content that says that it is valid is in step with its text. This holds behind every operation,
and it holds for listeners, which see contents in the middle of operations. A valid content is
marked before anyone is told of it, and an edit that is refused leaves the mark off, so no
operation shows a content whose mark and interface disagree.

## Main definitions

* `Operation`, `Content.perform`: the operations on a content
* `History c effects`: the content has come about by operations with these effects
* `InStep c`: the content has the interface of its text, with legal names

## Main results

* `sound_perform`: every operation keeps a content sound, and shows listeners sound contents only
* `inStep_of_isValid`: in any history, what says that it is valid is in step with its text
-/

namespace HdlModule

/-! ### Operations -/

/-- An operation on a content. -/
inductive Operation where
  | setText (text : String)
  | storeText (text : String)
  | rename (name : String)
  | setAppearance (appearance : Appearance)
  | aboutToSave
  | subscribe (tag : String)
  | unsubscribe (id : ListenerId)
deriving DecidableEq

/-- What operations consult in a design without modules, if no checker is there. -/
def Environment.initial : Environment := ⟨Settings.standard, none, ModuleNames.empty⟩

/-- The content behind an operation, and the effects of the operation. -/
def Content.perform (env : Environment) (supply : Nat) (c : Content) :
    Operation → Content × List Effect
  | .setText text => ((c.setText env supply text).content, (c.setText env supply text).effects)
  | .storeText text => ((c.storeText text).2, [])
  | .rename name => ((c.rename env supply name).content, (c.rename env supply name).effects)
  | .setAppearance appearance => c.setAppearance appearance
  | .aboutToSave => (c, c.aboutToSave)
  | .subscribe tag => ((c.subscribe tag).2, [])
  | .unsubscribe id => ((c.unsubscribe id).2, [])

/-- The content has come about by operations with these effects. -/
inductive History : Content → List Effect → Prop
  | create (env : Environment) (supply : Nat) (name : String) :
      History (Content.create env supply name).content (Content.create env supply name).effects
  | ofText (env : Environment) (supply : Nat) (name text : String) :
      History (Content.ofText env supply name text).content
        (Content.ofText env supply name text).effects
  | perform {c : Content} {es : List Effect} (h : History c es) (env : Environment)
      (supply : Nat) (operation : Operation) :
      History (c.perform env supply operation).1 (es ++ (c.perform env supply operation).2)

/-! ### Contents in step with their texts -/

/-- The content has the interface of its text, and the names in it are legal. -/
structure InStep (c : Content) : Prop where
  interface : ∃ i, Interface.ofText c.text = .ok i ∧ i.name = c.name ∧ i.ports = c.ports ∧
    i.parameters = c.parameters.map Prod.fst
  name : LegalName c.name
  parameters : ∀ entry ∈ c.parameters, LegalName entry.1.name

/-- The content is in step with its text if it says so. -/
def Sound (c : Content) : Prop := c.isValid = true → InStep c

/-- Listeners saw sound contents only. -/
def ShowsSound (es : List Effect) : Prop :=
  ∀ listener event seen, Effect.notified listener event seen ∈ es → Sound seen

/-- The parts of a content that soundness depends on. -/
theorem Sound.congr {c c' : Content} (h : Sound c) (htext : c'.text = c.text)
    (hname : c'.name = c.name) (hports : c'.ports = c.ports)
    (hparameters : c'.parameters = c.parameters) (hvalid : c'.isValid = c.isValid) :
    Sound c' := by
  intro hc'
  obtain ⟨hinterface, hlegal, hall⟩ := h (hvalid ▸ hc')
  refine ⟨?_, hname ▸ hlegal, hparameters ▸ hall⟩
  rwa [htext, hname, hports, hparameters]

theorem sound_of_not_isValid {c : Content} (h : c.isValid = false) : Sound c := by
  intro hc
  rw [h] at hc
  cases hc

section ShowsSound

variable {es es' : List Effect}

@[simp]
theorem showsSound_nil : ShowsSound [] := shows_nil

@[simp]
theorem showsSound_append : ShowsSound (es ++ es') ↔ ShowsSound es ∧ ShowsSound es' :=
  shows_append

theorem showsSound_notify {c : Content} (h : Sound c) (event : Event) :
    ShowsSound (c.notify event) := shows_notify h

theorem showsSound_checkEffects (env : Environment) (text : String) :
    ShowsSound (env.checkEffects text) := shows_checkEffects env text

theorem showsSound_binder (calls : List (BinderCall Parameter Handle)) :
    ShowsSound (calls.map .binder) := shows_binder calls

/-- Whether the effect tells a listener an event, and shows it a valid content. -/
def Effect.showsValid (listener : String) (event : Event) : Effect → Bool
  | notified listener' event' seen => listener' = listener && event' = event && seen.isValid
  | _ => false

theorem exists_of_any_showsValid {listener : String} {event : Event}
    (h : es.any (Effect.showsValid listener event) = true) :
    ∃ seen, Effect.notified listener event seen ∈ es ∧ seen.isValid = true := by
  obtain ⟨effect, hmem, hshown⟩ := List.any_eq_true.1 h
  cases effect with
  | notified listener' event' seen =>
    simp only [Effect.showsValid, Bool.and_eq_true, decide_eq_true_eq] at hshown
    obtain ⟨⟨rfl, rfl⟩, hseen⟩ := hshown
    exact ⟨seen, hmem, hseen⟩
  | _ => cases hshown

end ShowsSound

/-! ### What an operation keeps -/

namespace Content

variable {env : Environment} {supply : Nat} {c : Content} {i : Interface}

/-- A content that takes over the interface of an accepted text is in step with it. -/
theorem inStep_adopt (h : c.examine env = .ok i) : InStep (c.adopt supply i) := by
  obtain ⟨-, hread, hlegal, -, hparameters⟩ := examine_eq_ok_iff.1 h
  -- whichever handles are kept, the parameters are those of the interface
  have hentries : (c.adopt supply i).parameters.map Prod.fst = i.parameters :=
    map_fst_entries_reconcile _ _ _ _ _
  refine ⟨⟨i, hread, rfl, rfl, hentries.symm⟩, hlegal, fun entry hentry => ?_⟩
  apply hparameters
  rw [← hentries]
  exact List.mem_map_of_mem hentry

theorem sound_settle (h : Sound c) (refusal? : Option Refusal) : Sound (c.settle refusal?) :=
  h.congr rfl rfl rfl rfl rfl

/-- An examination leaves a sound content and shows sound contents only. -/
theorem sound_review (h : Sound c) :
    Sound (c.review env supply).content ∧ ShowsSound (c.review env supply).effects := by
  cases hexamine : c.examine env with
  | error e =>
    rw [review_of_error hexamine]
    have hsettled := sound_settle h (some e)
    exact ⟨hsettled, showsSound_append.2
      ⟨showsSound_checkEffects env c.text, showsSound_notify hsettled .contentSet⟩⟩
  | ok i =>
    rw [review_of_ok hexamine]
    have hadopted : Sound (c.adopt supply i) := fun _ => inStep_adopt hexamine
    have hsettled := sound_settle hadopted none
    refine ⟨hsettled, showsSound_append.2 ⟨showsSound_append.2
      ⟨showsSound_checkEffects env c.text, ?_⟩, showsSound_notify hsettled .contentSet⟩⟩
    refine showsSound_append.2 ⟨showsSound_binder _, ?_⟩
    split
    · exact showsSound_nil
    · exact showsSound_notify hadopted _

theorem sound_setText (h : Sound c) (text : String) :
    Sound (c.setText env supply text).content ∧
      ShowsSound (c.setText env supply text).effects := by
  rw [setText_eq]
  split
  · exact ⟨h, showsSound_nil⟩
  · exact sound_review (sound_of_not_isValid rfl)

theorem sound_rename (h : Sound c) (name : String) :
    Sound (c.rename env supply name).content ∧
      ShowsSound (c.rename env supply name).effects := by
  unfold rename
  split
  · exact ⟨h, showsSound_nil⟩
  · split
    · exact ⟨h, showsSound_nil⟩
    · exact sound_setText h _

/-- **Every operation keeps a content sound**, and listeners see sound contents on the way. -/
theorem sound_perform (env : Environment) (supply : Nat) (h : Sound c) (operation : Operation) :
    Sound (c.perform env supply operation).1 ∧
      ShowsSound (c.perform env supply operation).2 := by
  cases operation with
  | setText text => exact sound_setText h text
  | storeText text =>
    refine ⟨?_, showsSound_nil⟩
    show Sound (c.storeText text).2
    unfold storeText
    split
    · exact h
    · exact sound_of_not_isValid rfl
  | rename name => exact sound_rename h name
  | setAppearance appearance =>
    show Sound (c.setAppearance appearance).1 ∧ ShowsSound (c.setAppearance appearance).2
    unfold setAppearance
    split
    · exact ⟨h, showsSound_nil⟩
    · have hchanged : Sound { c with appearance := appearance } := h.congr rfl rfl rfl rfl rfl
      exact ⟨hchanged, showsSound_notify hchanged _⟩
  | aboutToSave => exact ⟨h, showsSound_notify h .aboutToSave⟩
  | subscribe tag => exact ⟨h.congr rfl rfl rfl rfl rfl, showsSound_nil⟩
  | unsubscribe id => exact ⟨h.congr rfl rfl rfl rfl rfl, showsSound_nil⟩

theorem sound_ofText (env : Environment) (supply : Nat) (name text : String) :
    Sound (ofText env supply name text).content ∧
      ShowsSound (ofText env supply name text).effects :=
  sound_setText (sound_of_not_isValid rfl) text

end Content

/-! ### Histories -/

namespace History

variable {c : Content} {es : List Effect}

/-- A whole history keeps what each operation keeps. -/
theorem sound (h : History c es) : Sound c ∧ ShowsSound es := by
  induction h with
  | create env supply name => exact Content.sound_ofText env supply name _
  | ofText env supply name text => exact Content.sound_ofText env supply name text
  | perform _ env supply operation ih =>
    obtain ⟨hc, hes⟩ := ih
    obtain ⟨hc', hes'⟩ := Content.sound_perform env supply hc operation
    exact ⟨hc', showsSound_append.2 ⟨hes, hes'⟩⟩

/-- **What says that it is valid is in step with its text**: the content behind any operations,
and every content that a listener saw during any of them. -/
theorem inStep_of_isValid (h : History c es) :
    (c.isValid = true → InStep c) ∧
      ∀ listener event seen, Effect.notified listener event seen ∈ es →
        seen.isValid = true → InStep seen := by
  obtain ⟨hc, hes⟩ := h.sound
  exact ⟨hc, fun listener event seen hseen => hes listener event seen hseen⟩

/-- An edit that changes the name of a module with a listener: the listener that is told of the
new name, and whoever looks afterwards, see a content in step with its text. -/
theorem inStep_of_isValid_name_edited :
    ∃ c es, History c es ∧ (c.isValid = true ∧ InStep c) ∧
      ∃ seen, Effect.notified "log" (.nameChanged "A" "B") seen ∈ es ∧ seen.isValid = true ∧
        InStep seen := by
  have hread := History.ofText .initial 0 "A" "module A(); endmodule"
  have hheard := hread.perform .initial 0 (.subscribe "log")
  have hedited := hheard.perform .initial 0
    (.setText "module B #(parameter int N = 4) (input [7:0] a); endmodule")
  obtain ⟨hafter, hwithin⟩ := hedited.inStep_of_isValid
  refine ⟨_, _, hedited, ⟨by decide +kernel, hafter (by decide +kernel)⟩, ?_⟩
  refine Exists.imp (fun seen h => ⟨h.1, h.2, hwithin _ _ _ h.1 h.2⟩)
    (exists_of_any_showsValid ?_)
  decide +kernel

end History

end HdlModule
