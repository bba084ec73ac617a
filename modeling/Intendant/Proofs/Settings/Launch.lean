import Intendant.Daemon.Launch
import Intendant.Proofs.Settings.Bounds
import Intendant.Proofs.Settings.Documents

/-! # Settings to start with

Settings that were loaded from a file are in bounds, and so are those that the daemon starts with: the options of the
command line are taken in before the bounds are checked once more (`settings_checked`). -/

namespace Intendant
open Settings

theorem mapError_eq_ok_iff {ε ε' α : Type} {f : ε → ε'} {x : Except ε α} {a : α} : x.mapError f = .ok a ↔ x = .ok a := by
  cases x with
  | error e => exact ⟨nofun, nofun⟩
  | ok b =>
    constructor
    · rintro ⟨⟩
      rfl
    · rintro ⟨⟩
      rfl

theorem bind_eq_ok_iff {ε α β : Type} {x : Except ε α} {f : α → Except ε β} {b : β} :
    x.bind f = .ok b ↔ ∃ a, x = .ok a ∧ f a = .ok b := by
  cases x with
  | error e => exact ⟨nofun, nofun⟩
  | ok a =>
    constructor
    · exact fun h => ⟨a, rfl, h⟩
    · rintro ⟨_, ⟨⟩, h⟩
      exact h

section
variable [Json.Reading] {processors : Nat} {s : Settings}

/-- Settings are loaded if they are in bounds and a text says them. -/
theorem Settings.load?_eq_ok_iff {path : String} {contents : Except FileError ByteArray} :
    load? processors path contents = .ok s ↔ s.InBounds processors ∧
      ∃ bytes text, contents = .ok bytes ∧ String.fromUTF8? bytes = some text ∧ ofText? (.ofPath path) text = some s := by
  cases contents with
  | error e => simp [load?]
  | ok bytes =>
    cases htext : String.fromUTF8? bytes with
    | none => simp [load?, htext]
    | some text =>
      cases hread : ofText? (.ofPath path) text with
      | none => simp [load?, htext, hread]
      | some s' =>
        have hload : load? processors path (.ok bytes) = s'.validate? processors := by simp only [load?, htext, hread]
        rw [hload, validate?_eq_ok_iff]
        constructor
        · rintro ⟨rfl, hbounds⟩
          exact ⟨hbounds, bytes, text, rfl, htext, hread⟩
        · rintro ⟨hbounds, _, _, hbytes, htext', hread'⟩
          cases hbytes
          cases htext.symm.trans htext'
          cases hread.symm.trans hread'
          exact ⟨rfl, hbounds⟩

/-- The settings that the options are applied to: those of the file that is named, or the default ones. -/
def DaemonOptions.Given (processors : Nat) (o : DaemonOptions) (contents : String → Except FileError ByteArray) (s : Settings) :
    Prop :=
  match o.config with
  | none => s = {}
  | some path => load? processors path (contents path) = .ok s

theorem DaemonOptions.settings?_eq_ok_iff {o : DaemonOptions} {contents : String → Except FileError ByteArray} :
    o.settings? processors contents = .ok s ↔
      s.InBounds processors ∧ ∃ given, o.Given processors contents given ∧ s = o.change given := by
  have hchecked : ∀ given : Settings, ((o.change given).validate? processors).mapError LaunchError.invalid = .ok s ↔
      s = o.change given ∧ s.InBounds processors := by
    intro given
    rw [mapError_eq_ok_iff, validate?_eq_ok_iff]
    exact and_congr_right fun hs => by rw [hs]
  rw [settings?, bind_eq_ok_iff, ← exists_and_left]
  refine exists_congr fun given => Iff.trans (and_congr (?_ : _ ↔ o.Given processors contents given) (hchecked given)) ?_
  · unfold Given
    cases o.config with
    | none => simp [eq_comm]
    | some path => exact mapError_eq_ok_iff
  · rw [← and_assoc, and_comm]

end

/-- Settings are valid exactly if they are in bounds, and the first violation is reported otherwise; a document gives
    the values under the known keys and leaves the defaults; settings are loaded from a file exactly if it says them and
    they are in bounds, and the daemon starts exactly with those that its options make of the file and that are in
    bounds. -/
theorem settings_checked [Json.Reading] (processors : Nat) :
    (∀ s : Settings, (s.validate? processors = .ok s ↔ s.InBounds processors) ∧
      ∀ e, s.validate? processors = .error e ↔ s.Complaint processors e) ∧
    (∀ format text s, ofText? format text = some s → ∃ j, document? format text = some j ∧ Takes keys (some j) s {}) ∧
    (∀ path contents s, load? processors path contents = .ok s ↔ s.InBounds processors ∧
      ∃ bytes text, contents = .ok bytes ∧ String.fromUTF8? bytes = some text ∧ ofText? (.ofPath path) text = some s) ∧
    (∀ (o : DaemonOptions) (contents : String → Except FileError ByteArray) s, o.settings? processors contents = .ok s ↔
      s.InBounds processors ∧ ∃ given, o.Given processors contents given ∧ s = o.change given) := by
  refine ⟨fun s => ⟨?_, fun e => validate?_eq_error_iff⟩, fun _ _ _ h => ofText?_takes h, fun _ _ _ => load?_eq_ok_iff,
    fun _ _ _ => DaemonOptions.settings?_eq_ok_iff⟩
  rw [validate?_eq_ok_iff]
  exact and_iff_right rfl

/-- A file that gives one key, and a port from the command line. -/
theorem settings_checked_override :
    let _ : Json.Reading := .scaled
    let text := "[planner.astar]\nmax_states = 7\n"
    let o : DaemonOptions := { config := some "planner.toml", registryPort := some 4444 }
    let given : Settings := { planner := { maxStates := 7 } }
    load? 4 "planner.toml" (.ok text.toUTF8) = .ok given ∧ o.settings? 4 (fun _ => .ok text.toUTF8) = .ok (o.change given) ∧
      (o.change given).planner.maxStates = 7 ∧ (o.change given).planner.registryPort = 4444 ∧
      (o.change given).planner.maxCandidates = 10 ∧ (o.change given).InBounds 4 := by
  intro _ text o given
  have hgiven : given.InBounds 4 := inBounds_iff.mpr (Option.isNone_iff_eq_none.mp (by decide +kernel))
  have hchanged : (o.change given).InBounds 4 := inBounds_iff.mpr (Option.isNone_iff_eq_none.mp (by decide +kernel))
  have hload : load? 4 "planner.toml" (.ok text.toUTF8) = .ok given :=
    load?_eq_ok_iff.mpr ⟨hgiven, _, text, rfl, by decide +kernel, by decide +kernel⟩
  have hstart : o.settings? 4 (fun _ => .ok text.toUTF8) = .ok (o.change given) :=
    DaemonOptions.settings?_eq_ok_iff.mpr ⟨hchanged, given, hload, rfl⟩
  exact ⟨hload, hstart, rfl, rfl, rfl, (((settings_checked 4).2.2.2 o _ _).mp hstart).1⟩

end Intendant
