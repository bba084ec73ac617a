import Intendant.Network.Registration
import Intendant.Proofs.Registry.Dial
import Intendant.Proofs.Registry.Reached

/-! # Registrations that are dialed

In a network in memory the outcomes of the probes are those that the network gives one after the other (`outcome`), and
dialing depends on them alone. A registration whose plugin is not reached leaves all registries as they are, whether it
goes through at once (`register_of_unready`) or side by side with others. `dial_within_retries` says all of it together. -/

namespace Intendant

namespace Network
variable {n : Network} {endpoint : String} {i k retries : Nat}

/-- The network after some probes of an endpoint. -/
def probed (n : Network) (endpoint : String) (k : Nat) : Network := (fun n => (probe endpoint n).2)^[k] n

/-- What a probe of an endpoint finds after some others. -/
def outcome (n : Network) (endpoint : String) (k : Nat) : Bool := (probe endpoint (n.probed endpoint k)).1

theorem probed_succ (n : Network) (endpoint : String) (k : Nat) :
    n.probed endpoint (k + 1) = (probe endpoint (n.probed endpoint k)).2 :=
  Function.iterate_succ_apply' _ _ _

theorem probe_keeps (endpoint : String) (n : Network) :
    (probe endpoint n).2.registries = n.registries ∧ (probe endpoint n).2.clients = n.clients := by
  have hhealth : (n.health endpoint).2.registries = n.registries ∧ (n.health endpoint).2.clients = n.clients := by
    unfold health
    split
    · exact ⟨rfl, rfl⟩
    · split <;> exact ⟨rfl, rfl⟩
    · exact ⟨rfl, rfl⟩
  unfold probe
  split <;> rename_i heq <;> rw [heq] at hhealth <;> exact hhealth

theorem probed_keeps (n : Network) (endpoint : String) (k : Nat) :
    (n.probed endpoint k).registries = n.registries ∧ (n.probed endpoint k).clients = n.clients := by
  induction k with
  | zero => exact ⟨rfl, rfl⟩
  | succ k ih =>
    obtain ⟨hregistries, hclients⟩ := probe_keeps endpoint (n.probed endpoint k)
    rw [probed_succ]
    exact ⟨hregistries.trans ih.1, hclients.trans ih.2⟩

/-! ### Dialing an endpoint -/

theorem dialEndpoint_eq {outcome : Except PluginError Unit} {n' : Network}
    (h : dial (m := StateM Network) (probe endpoint) (fun _ => pure ()) (Endpoint.url endpoint) (.ofNat retries) 0 n =
      (some outcome, n')) : n.dialEndpoint endpoint retries = (outcome, n') := by
  simp only [dialEndpoint, h, Option.getD_some]

theorem dialEndpoint_of_ready (hretries : retries < UInt32.size) (hk : k ≤ retries) (hready : n.outcome endpoint k = true)
    (hfailed : ∀ j < k, n.outcome endpoint j = false) :
    n.dialEndpoint endpoint retries = (.ok (), n.probed endpoint (k + 1)) := by
  have hnat : (UInt32.ofNat retries).toNat = retries := UInt32.toNat_ofNat_of_lt' hretries
  refine dialEndpoint_eq ?_
  rw [dial, hnat, probed_succ]
  exact Dialing.run_of_ready _ _ (by rw [hnat]; exact (Nat.zero_add k).le.trans hk) (Nat.lt_succ_of_le hk) hready hfailed

theorem dialEndpoint_of_unready (hretries : retries < UInt32.size - 1)
    (hfailed : ∀ j ≤ retries, n.outcome endpoint j = false) :
    n.dialEndpoint endpoint retries =
      (.error (.unreachable (Endpoint.url endpoint) retries), n.probed endpoint (retries + 1)) := by
  have hnat : (UInt32.ofNat retries).toNat = retries := UInt32.toNat_ofNat_of_lt' (Nat.lt_of_lt_pred hretries)
  refine dialEndpoint_eq ?_
  have hrun := Dialing.run_of_unready (probe endpoint) (fun _ => pure ())
    (d := { url := Endpoint.url endpoint, retries := .ofNat retries, backoffMs := 0 }) (w := n) (k := retries)
    (by rw [hnat]; exact Nat.zero_add retries) (by rw [hnat]; exact hretries) (Nat.lt_succ_self _) hfailed
  rw [dial, hnat, probed_succ]
  rw [hnat] at hrun
  exact hrun

/-! ### Registering with a registry -/

variable [Json.Reading] {p : RegistryProcess} {info : Plugin.Info}

/-- A plugin that is not reached is turned away, and no registry and no client comes of it. -/
theorem register_of_unready (hp : n.registries[i]? = some p) (hretries : p.settings.retries < UInt32.size - 1)
    (hfailed : ∀ j ≤ p.settings.retries, n.outcome info.endpoint j = false) :
    (n.register i info).1 = .rejected ((p.registry.refusal? info).getD
      (Registry.unreachableReason (.unreachable (Endpoint.url info.endpoint) p.settings.retries))) ∧
    (n.register i info).2.registries = n.registries ∧ (n.register i info).2.clients = n.clients := by
  have hdial := dialEndpoint_of_unready hretries hfailed
  rw [register, hp]
  dsimp only
  cases hrefusal : p.registry.refusal? info with
  | some reason =>
    rw [attempt, hrefusal]
    exact ⟨rfl, rfl, rfl⟩
  | none =>
    rw [attempt, hrefusal]
    dsimp only [dialOut, connect]
    rw [hdial]
    exact ⟨rfl, probed_keeps n info.endpoint (p.settings.retries + 1)⟩

/-- Dialing in a network comes to what it comes to with the outcomes that the network gives, and a registration that it
    fails is turned away. -/
theorem register_of_dialed {outcomes : Nat → Bool} {backoffMs : Nat} {result : Except PluginError Unit}
    {log : List DialEvent} (h : Dialed outcomes (Endpoint.url info.endpoint) retries backoffMs result log)
    (hretries : retries < UInt32.size - 1) (hp : n.registries[i]? = some p) (hsettings : p.settings.retries = retries)
    (houtcomes : ∀ k, n.outcome info.endpoint k = outcomes k) :
    (n.dialEndpoint info.endpoint retries).1 = result ∧ ∀ e, result = .error e →
      (n.register i info).1 = .rejected ((p.registry.refusal? info).getD (Registry.unreachableReason e)) ∧
      (n.register i info).2.registries = n.registries ∧ (n.register i info).2.clients = n.clients := by
  obtain rfl : n.outcome info.endpoint = outcomes := funext houtcomes
  subst hsettings
  rcases exists_first_ready (n.outcome info.endpoint) p.settings.retries with ⟨k, hk, hready, hfailed⟩ | hfailed
  · have hok : result = .ok () := h.ok_iff.mpr ⟨k, hk, hready⟩
    refine ⟨?_, fun e he => nomatch hok.symm.trans he⟩
    rw [dialEndpoint_of_ready (hretries.trans_le (Nat.sub_le _ _)) hk hready hfailed, hok]
  · obtain ⟨rfl, -⟩ := h.unready hfailed
    refine ⟨congrArg Prod.fst (dialEndpoint_of_unready hretries hfailed), fun e he => ?_⟩
    cases he
    exact register_of_unready hp hretries hfailed

omit [Json.Reading] in
/-- Nobody answers where nobody listens. -/
theorem outcome_of_unresolved (h : n.resolve? endpoint = none) : n.outcome endpoint k = false := by
  have hprobe : probe endpoint n = (false, n) := by
    rw [probe, health, h]
  have hfixed : n.probed endpoint k = n := Function.iterate_fixed (congrArg Prod.snd hprobe) k
  rw [outcome, hfixed, hprobe]

end Network

open DialEvent RegistrySystem

/-- Dialing with any number of retries but the largest one comes to an end, whatever the probes find. It ends well exactly
    if the first probe or one of as many more as there are retries is ready; then it has probed until the first ready one,
    and otherwise that often and no more, with one pause between a probe and the next, and gives up with its url and its
    retries. Dialing in a network whose probes find the same ends in the same way, and if it fails the registration that it
    is for changes no registry. Nor does a registration that fails side by side with others: it is gone, and every plugin
    that is registered later was reached by another dial. -/
theorem dial_within_retries [Json.Reading] (outcomes : Nat → Bool) (url : String) (retries : UInt32) (backoffMs : Nat)
    (hretries : retries.toNat < UInt32.size - 1) :
    ∃ result log,
      dial (answering outcomes) noting url retries backoffMs [] = (some result, log) ∧
      (∀ probes, retries.toNat < probes →
        Dialing.run (answering outcomes) noting probes { url, retries, backoffMs } [] = (some result, log)) ∧
      Dialed outcomes url retries.toNat backoffMs result log ∧
      (∀ (n : Network) (i : Nat) (p : RegistryProcess) (info : Plugin.Info), n.registries[i]? = some p →
        p.settings.retries = retries.toNat → Endpoint.url info.endpoint = url →
        (∀ k, n.outcome info.endpoint k = outcomes k) →
        (n.dialEndpoint info.endpoint retries.toNat).1 = result ∧
          ∀ e, result = .error e →
            (n.register i info).1 = .rejected ((p.registry.refusal? info).getD (Registry.unreachableReason e)) ∧
            (n.register i info).2.registries = n.registries ∧ (n.register i info).2.clients = n.clients) ∧
      ∀ (limit : Nat) (moves : List RegistryMove) (s : RegistrySystem) (index : Nat) (info : Plugin.Info) (e : PluginError),
        run? { registry := { retries := limit } } moves = some s → s.tasks[index]? = some (.dialing info) →
        result = .error e →
        ∃ s', s.step? (.goOn index (some (.dialed (some e)))) = some s' ∧ s'.registry = s.registry ∧
          s'.tasks = s.tasks.eraseIdx index ∧
          s'.registrations = s.registrations ++ [⟨info, none, .rejected (Registry.unreachableReason e)⟩] ∧
          ∀ more s'', s'.run? more = some s'' →
            (∀ p ∈ s''.registry.plugins,
              (reached { registry := { retries := limit } } moves ++ s'.reached more)[p.2.client]? = some p.2.info) ∧
            (s''.registry.plugins.map (·.2.client)).Nodup := by
  obtain ⟨result, log, hrun, hdialed⟩ := Dialing.exists_run_noted outcomes url backoffMs hretries
  refine ⟨result, log, hrun _ (Nat.lt_succ_self _), hrun, hdialed, ?_, ?_⟩
  · rintro n i p info hp hsettings rfl houtcomes
    exact Network.register_of_dialed hdialed hretries hp hsettings houtcomes
  · intro limit moves s index info e hs ht _
    exact fail_registers_nothing hs ht e

/-- A machine on which a registry runs and nobody listens. -/
def quietNetwork : Network where
  registries := #[.ofSettings { host := "127.0.0.1", port := 0, retries := 2, reconcileMs := 1000, callTimeoutMs := 1000 } []]

/-- A server that is ready at the last retry, and one that never is, for which a registry turns the plugin away. -/
theorem dial_within_retries_last :
    let _ : Json.Reading := .scaled
    let info : Plugin.Info := { name := "scaler", endpoint := "127.0.0.1:1" }
    (2 : UInt32).toNat < UInt32.size - 1 ∧
    dial (answering fun k => k = 2) noting "http://127.0.0.1:1" 2 10 [] =
      (some (.ok ()), [.probed false, .paused 10, .probed false, .paused 10, .probed true]) ∧
    dial (answering fun _ => false) noting "http://127.0.0.1:1" 2 10 [] =
      (some (.error (.unreachable "http://127.0.0.1:1" 2)),
        [.probed false, .paused 10, .probed false, .paused 10, .probed false]) ∧
    (quietNetwork.register 0 info).1 = .rejected
      "Actuator client stub error: Failed establishing a connection to endpoint http://127.0.0.1:1 after 2 retries." ∧
    (quietNetwork.register 0 info).2.registries = quietNetwork.registries ∧
    ∃ s s', run? { registry := { retries := 2 } } [.register info, .goOn 0 none] = some s ∧
      s.step? (.goOn 0 (some (.dialed (some (.unreachable "http://127.0.0.1:1" 2))))) = some s' ∧
      s'.registry.plugins = [] ∧ s'.tasks.length = 0 := by
  intro _ info
  have hretries : (2 : UInt32).toNat < UInt32.size - 1 := by decide
  obtain ⟨result, log, hdial, -, hready, -⟩ := dial_within_retries (fun k => k = 2) "http://127.0.0.1:1" 2 10 hretries
  obtain ⟨hlog, -⟩ := hready.ready 2 (Nat.le_refl 2) rfl (by decide)
  have hok : result = .ok () := hready.ok_iff.mpr ⟨2, Nat.le_refl 2, rfl⟩
  obtain ⟨result', log', hdial', -, hunready, hnetwork, hsystem⟩ :=
    dial_within_retries (fun _ => false) "http://127.0.0.1:1" 2 10 hretries
  obtain ⟨herror, hlog', -⟩ := hunready.unready fun _ _ => rfl
  obtain ⟨-, hregister⟩ := hnetwork quietNetwork 0 _ info rfl rfl rfl
    fun k => Network.outcome_of_unresolved (by decide)
  obtain ⟨hanswer, hregistries, -⟩ := hregister _ herror
  have hviews : (run? { registry := { retries := 2 } } [.register info, .goOn 0 none]).map
      (fun s => (s.tasks, s.registry.plugins)) = some ([.dialing info], []) := rfl
  obtain ⟨s, hs, hview⟩ := Option.map_eq_some_iff.mp hviews
  obtain ⟨htasks, hplugins⟩ := Prod.mk.inj hview
  obtain ⟨s', hstep, hregistry, hrest, -⟩ := hsystem 2 _ s 0 info _ hs (by rw [htasks]; rfl) herror
  refine ⟨hretries, ?_, ?_, hanswer.trans ?_, hregistries, s, s', hs, hstep, ?_, ?_⟩
  · rw [hdial, hok, hlog]
    rfl
  · rw [hdial', herror, hlog']
    rfl
  · decide
  · rw [hregistry, hplugins]
  · rw [hrest, htasks]
    rfl

end Intendant
