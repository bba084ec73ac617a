import Intendant.Proofs.Registry.Basic
import Intendant.Proofs.Places
import Intendant.Registry.System

/-! # Steps of a registry at work

Everything that a registry and its tasks can do, case by case (`stepped_of_step?`). -/

namespace Intendant.RegistrySystem
open Plugin (RegisterAnswer)

/-- A finished task is gone. -/
def finish (s : RegistrySystem) (before after : List RegistryTask) : RegistrySystem := { s with tasks := before ++ after }

/-- A task goes on as another one. -/
def proceed (s : RegistrySystem) (before : List RegistryTask) (t : RegistryTask) (after : List RegistryTask) :
    RegistrySystem := { s with tasks := before ++ t :: after }

/-- The checkups of a round, by the plugins it asked and what they answered. -/
def checkups (plugins : List (String × Nat)) (ready : List Bool) : List Checkup :=
  (plugins.zip ready).map fun p => ⟨p.1.1, p.1.2, p.2⟩

/-- What a move can do. -/
inductive Stepped (s : RegistrySystem) : RegistryMove → RegistrySystem → Prop
  | register (info : Plugin.Info) : Stepped s (.register info) (s.begin (.checking info))
  | refresh : Stepped s .refresh (s.begin .listing)
  | stop : Stepped s .stop ({ s with registry := s.registry.raiseStop }.begin .draining)
  | refuse {before after : List RegistryTask} {info : Plugin.Info} {reason : String}
      (tasks : s.tasks = before ++ .checking info :: after) (h : s.registry.refusal? info = some reason) :
      Stepped s (.goOn before.length none) ((s.answer info none (.rejected reason)).finish before after)
  | allow {before after : List RegistryTask} {info : Plugin.Info}
      (tasks : s.tasks = before ++ .checking info :: after) (h : s.registry.refusal? info = none) :
      Stepped s (.goOn before.length none) (s.proceed before (.dialing info) after)
  | fail {before after : List RegistryTask} {info : Plugin.Info} (e : PluginError)
      (tasks : s.tasks = before ++ .dialing info :: after) :
      Stepped s (.goOn before.length (some (.dialed (some e))))
        ((s.answer info none (.rejected (Registry.unreachableReason e))).finish before after)
  | dial {before after : List RegistryTask} {info : Plugin.Info} (tasks : s.tasks = before ++ .dialing info :: after) :
      Stepped s (.goOn before.length (some (.dialed none)))
        ({ s with freshClient := s.freshClient + 1 }.proceed before (.committing info s.freshClient) after)
  | accept {before after : List RegistryTask} {info : Plugin.Info} {client : Nat}
      (tasks : s.tasks = before ++ .committing info client :: after) (running : s.registry.stopped = false)
      (free : info.name ∉ s.registry.names) :
      Stepped s (.goOn before.length none)
        (({ s with registry := { s.registry with
            plugins := s.registry.plugins ++ [(info.name, (⟨info, client⟩ : Registered))]
            failures := s.registry.failures.insert info.name 0 } }.answer info (some client) .ok).finish before after)
  | reject {before after : List RegistryTask} {info : Plugin.Info} {client : Nat} (reason : String)
      (tasks : s.tasks = before ++ .committing info client :: after) :
      Stepped s (.goOn before.length none)
        (((s.answer info (some client) (.rejected reason)).stopClients [client]).finish before after)
  | list {before after : List RegistryTask} (tasks : s.tasks = before ++ .listing :: after) :
      Stepped s (.goOn before.length none) (s.proceed before (.probing s.registry.snapshot) after)
  | check {before after : List RegistryTask} {plugins : List (String × Nat)} {ready : List Bool}
      (tasks : s.tasks = before ++ .probing plugins :: after) (h : plugins.length = ready.length) :
      Stepped s (.goOn before.length (some (.probed ready)))
        (({ s with registry := (s.registry.takeCheckups (checkups plugins ready)).2 }.stopClients
          (s.registry.takeCheckups (checkups plugins ready)).1).finish before after)
  | drain {before after : List RegistryTask} (tasks : s.tasks = before ++ .draining :: after) :
      Stepped s (.goOn before.length none)
        (({ s with registry := s.registry.drain.2 }.stopClients s.registry.drain.1).finish before after)

variable {s s' : RegistrySystem} {m : RegistryMove}

theorem stepped_of_step? (h : s.step? m = some s') : Stepped s m s' := by
  cases m with
  | register info =>
    cases h
    exact .register info
  | refresh =>
    cases h
    exact .refresh
  | stop =>
    cases h
    exact .stop
  | goOn index signal =>
    simp only [step?, Option.bind_eq_bind, Option.bind_eq_some_iff, Option.pure_def, Option.some.injEq] at h
    obtain ⟨t, ht, ⟨s₁, rest⟩, hstep, rfl⟩ := h
    obtain ⟨before, after, htasks, rfl⟩ := Places.exists_split ht
    have hproceed : ∀ {s₀ s₁ : RegistrySystem} {t' : RegistryTask}, s₀ = s₁ → s₀.tasks = s.tasks →
        Stepped s (.goOn before.length signal) (s₀.proceed before t' after) →
        Stepped s (.goOn before.length signal) { s₁ with tasks := s₁.tasks.set before.length t' } := by
      rintro s₀ _ t' rfl h₀ hs
      rw [h₀, htasks, Places.set_split]
      exact hs
    have hfinish : ∀ {s₀ s₁ : RegistrySystem}, s₀ = s₁ → s₀.tasks = s.tasks →
        Stepped s (.goOn before.length signal) (s₀.finish before after) →
        Stepped s (.goOn before.length signal) { s₁ with tasks := s₁.tasks.eraseIdx before.length } := by
      rintro s₀ _ rfl h₀ hs
      rw [h₀, htasks, Places.eraseIdx_split]
      exact hs
    -- A task takes no signal but its own.
    rcases t with info | info | ⟨info, client⟩ | _ | plugins | _ <;> rcases signal with _ | (_ | e) | ready <;>
      simp only [taskStep?, reduceCtorEq] at hstep
    · split at hstep
      · rename_i reason hreason
        obtain ⟨h₁, rfl⟩ := Prod.mk.inj (Option.some.inj hstep)
        exact hfinish h₁ rfl (.refuse htasks hreason)
      · rename_i hadmitted
        obtain ⟨h₁, rfl⟩ := Prod.mk.inj (Option.some.inj hstep)
        exact hproceed h₁ rfl (.allow htasks hadmitted)
    · obtain ⟨h₁, rfl⟩ := Prod.mk.inj (Option.some.inj hstep)
      exact hproceed h₁ rfl (.dial htasks)
    · obtain ⟨h₁, rfl⟩ := Prod.mk.inj (Option.some.inj hstep)
      exact hfinish h₁ rfl (.fail e htasks)
    · rcases Registry.commit_cases s.registry info client with ⟨reason, heq⟩ | ⟨hrunning, hfree, heq⟩ <;>
        rw [heq] at hstep <;> obtain ⟨h₁, rfl⟩ := Prod.mk.inj (Option.some.inj hstep)
      · exact hfinish h₁ rfl (.reject reason htasks)
      · exact hfinish h₁ rfl (.accept htasks hrunning hfree)
    · obtain ⟨h₁, rfl⟩ := Prod.mk.inj (Option.some.inj hstep)
      exact hproceed h₁ rfl (.list htasks)
    · split at hstep
      · rename_i hlength
        obtain ⟨h₁, rfl⟩ := Prod.mk.inj (Option.some.inj hstep)
        exact hfinish h₁ rfl (.check htasks hlength)
      · cases hstep
    · obtain ⟨h₁, rfl⟩ := Prod.mk.inj (Option.some.inj hstep)
      exact hfinish h₁ rfl (.drain htasks)

end Intendant.RegistrySystem
