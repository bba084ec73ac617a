import Intendant.Proofs.Places
import Intendant.Proofs.Plugin.Remote
import Intendant.Proofs.Plugin.Slot

/-! # Answers to the right call

In every run of a client and its plugin a call is answered with what a session gave for its own request. Every request that
was sent has been answered once or is still on its stream, whether or not the client has let go of the stream. -/

namespace Intendant.Plugin
open Synthesis Planner
variable {σ : Type}

/-- The call a reply is for, with its request. -/
def SessionReply.key (r : SessionReply σ) : Nat × String := (r.number, r.request)

namespace Conversation

section
variable [Json.Reading]

/-- The requests that no session has answered. -/
def pending (s : Conversation σ) : List (Nat × String) := (s.client.stream.toList ++ s.dropped).flatMap (·.requests)

/-- What a move can do. -/
inductive Stepped (s : Conversation σ) : ConversationMove σ → Conversation σ → Prop
  | client {m : ClientMove} {c : Client} (h : Client.Stepped s.client m c) : Stepped s (.client m) (s.advanced m c)
  | answer {l : Link} {request : Nat × String} {rest : List (Nat × String)} (stream : s.client.stream = some l)
      (requests : l.requests = request :: rest) :
      Stepped s .answer ({ s with client := { s.client with
        stream := some ⟨rest, l.frames ++ [(s.reply request).frame], false⟩ } }.replied (s.reply request))
  | answerDropped {before after : List Link} {l : Link} {request : Nat × String} {rest : List (Nat × String)}
      (dropped : s.dropped = before ++ l :: after) (requests : l.requests = request :: rest) :
      Stepped s (.answerDropped before.length) ({ s with
        dropped := before ++ { l with requests := rest, frames := l.frames ++ [(s.reply request).frame] } :: after }.replied
          (s.reply request))
  | signal {f : Frame} {l : Link} (stream : s.client.stream = some l) (idle : Client.answerIn? f = none) :
      Stepped s (.signal f) { s with client := { s.client with
        stream := some { l with frames := l.frames ++ [(s.client.fresh, f)] } } }
  | hangUp {l : Link} (stream : s.client.stream = some l) :
      Stepped s .hangUp { s with client := { s.client with stream := some { l with ended := true } } }
  | restart (actuator : Actuator σ) (memory : σ) :
      Stepped s (.restart actuator memory) { s with
        client := { s.client with stream := s.client.stream.map fun l => { l with ended := true } }
        actuator := actuator
        memory := memory
        dropped := s.dropped.map fun l => { l with ended := true } }

variable {s s' : Conversation σ} {m : ConversationMove σ} {moves : List (ConversationMove σ)}

theorem stepped_of_step? (h : s.step? m = some s') : Stepped s m s' := by
  cases m with
  | client m =>
    simp only [step?] at h
    split at h
    · obtain ⟨c, hc, rfl⟩ := Option.map_eq_some_iff.mp h
      exact .client (Client.stepped_of_step? ‹_› hc)
    · cases h
  | answer =>
    simp only [step?, Option.bind_eq_bind, Option.bind_eq_some_iff, Option.pure_def, Option.some.injEq] at h
    obtain ⟨l, hl, request, hrequest, c, hc, rfl⟩ := h
    obtain ⟨rest, hrequests⟩ := List.head?_eq_some_iff.mp hrequest
    simp only [Client.step?, hl, Option.bind_eq_bind, Option.bind_some, hrequests] at hc
    split at hc <;> cases hc
    exact .answer hl hrequests
  | answerDropped index =>
    simp only [step?, Option.bind_eq_bind, Option.bind_eq_some_iff] at h
    obtain ⟨l, hl, request, hrequest, h⟩ := h
    obtain ⟨rest, hrequests⟩ := List.head?_eq_some_iff.mp hrequest
    split at h <;> cases h
    obtain ⟨before, after, hdropped, rfl⟩ := Places.exists_split hl
    rw [hdropped, Places.set_split, hrequests]
    exact .answerDropped hdropped hrequests
  | signal f =>
    simp only [step?, Option.bind_eq_bind, Option.bind_eq_some_iff] at h
    obtain ⟨l, hl, h⟩ := h
    split at h <;> cases h
    exact .signal hl (by simpa using ‹¬(Client.answerIn? f).isSome = true›)
  | hangUp =>
    obtain ⟨c, hc, rfl⟩ := Option.map_eq_some_iff.mp h
    obtain ⟨l, hl, hc⟩ := Option.bind_eq_some_iff.mp hc
    cases hc
    exact .hangUp hl
  | restart actuator memory =>
    cases h
    have hclient : (s.client.step? .hangUp).getD s.client =
        { s.client with stream := s.client.stream.map fun l => { l with ended := true } } := by
      cases hl : s.client.stream <;> simp [Client.step?, hl]
      rw [← hl]
    rw [hclient]
    exact .restart actuator memory

/-- What holds of a client and its plugin at any time. -/
structure Kept (s : Conversation σ) : Prop where
  numbered : s.client.Numbered
  slot : s.client.stopped = false → s.client.Slot
  asked_numbers : s.asked.map (·.1) = List.range s.client.fresh
  calls_asked : ∀ k ∈ s.client.calls, (k.number, k.request) ∈ s.asked
  sent_asked : ∀ q ∈ s.sent, q ∈ s.asked
  sent_nodup : (s.sent.map (·.1)).Nodup
  unsent : ∀ k ∈ s.client.calls, k.phase ≠ .receiving → k.number ∉ s.sent.map (·.1)
  served : (s.replies.map SessionReply.key ++ s.pending).Perm s.sent
  frames : ∀ l, s.client.stream = some l → ∀ f ∈ l.frames, (Client.answerIn? f.2).isSome → ∃ r ∈ s.replies, f = r.frame
  answered : ∀ n k a, (n, .answered k a) ∈ s.client.outcomes →
    k = n ∧ ∃ r ∈ s.replies, r.number = n ∧ (Wire.decode? r.text : Option NextStateAnswer) = some a

theorem Kept.initial (info : Info) (callTimeoutMs : Nat) (actuator : Actuator σ) (memory : σ) :
    Kept (initial info callTimeoutMs actuator memory) where
  numbered := ⟨.nil, nofun⟩
  slot _ := .free rfl nofun nofun
  asked_numbers := rfl
  calls_asked := nofun
  sent_asked := nofun
  sent_nodup := .nil
  unsent := nofun
  served := .nil
  frames := nofun
  answered := nofun

/-! ### Moves of the client -/

section
variable {c : Client} {own : ClientMove}

theorem Kept.asked_lt (h : s.Kept) {q : Nat × String} (hq : q ∈ s.asked) : q.1 < s.client.fresh :=
  List.mem_range.mp (h.asked_numbers ▸ List.mem_map_of_mem hq)

theorem Kept.slot_of_isIn (h : s.Kept) {n : Nat} {phase : CallPhase} (hin : s.client.isIn n phase = true) : s.client.Slot :=
  h.slot (Client.isIn_eq_true.mp hin).1

/-- A client that opens a stream had none. -/
theorem Kept.stream_eq_none (h : s.Kept) {n : Nat} (hin : s.client.isIn n .opening = true) : s.client.stream = none := by
  obtain ⟨k, -, -, hphase, -, hfits, -⟩ := (h.slot_of_isIn hin).of_isIn h.numbered hin
  rw [Call.Fits, hphase] at hfits
  exact hfits

/-- A request that goes out joins those which no session has answered. No other request comes or goes. -/
theorem Kept.pending_step (h : s.Kept) (hm : Client.Stepped s.client own c) :
    (s.advanced own c).pending.Perm (s.pending ++ s.client.sends own) := by
  -- A move that sends nothing keeps the stream with its requests, or lets go of it.
  have hsame : ∀ stream : Option Link, stream.toList.flatMap (·.requests) = s.client.stream.toList.flatMap (·.requests) →
      (stream.isNone → s.client.stream = none) → s.client.sends own = [] → c.stream = stream →
      (s.advanced own c).pending.Perm (s.pending ++ s.client.sends own) := by
    rintro _ hrequests hnone hsends rfl
    have hadded : (if c.stream.isNone then s.client.stream.toList else []) = [] := by
      split
      · rw [hnone ‹_›]
        rfl
      · rfl
    rw [hsends, List.append_nil, pending, pending, advanced, hadded, List.append_nil, List.flatMap_append, hrequests,
      List.flatMap_append]
  have hdropped : s.client.sends own = [] → c.stream = none →
      (s.advanced own c).pending.Perm (s.pending ++ s.client.sends own) := by
    intro hsends hstream
    rw [hsends, List.append_nil, pending, pending, advanced]
    simp only [hstream, Option.isNone_none, if_true, Option.toList_none, List.nil_append]
    exact List.Perm.flatMap_right _ List.perm_append_comm
  cases hm with
  | refuse | begin | acquire => exact hsame _ rfl (fun hnone => Option.isNone_iff_eq_none.mp hnone) rfl rfl
  | opened hin =>
    have hnone := h.stream_eq_none hin
    exact hsame (some {}) (by rw [hnone]; rfl) (fun hsome => absurd hsome Bool.false_ne_true) rfl rfl
  | @send k l _ find stream =>
    rw [Client.sends_eq find, pending, pending, advanced]
    simp only [Client.setPhase, stream, Option.isNone_some, Bool.false_eq_true, if_false, List.append_nil,
      Option.toList_some, List.singleton_append, List.flatMap_cons, List.append_assoc]
    exact .append_left _ (List.perm_append_singleton ..).symm
  | skip _ stream | answered _ stream =>
    exact hsame (some _) (by rw [stream]; rfl) (fun hsome => absurd hsome Bool.false_ne_true) rfl rfl
  | fail _ _ quiet => exact hdropped quiet.2 rfl
  | stop =>
    by_cases hfree : s.client.holder.isNone = true
    · exact hdropped rfl (if_pos hfree)
    · exact hsame _ rfl (fun hnone => Option.isNone_iff_eq_none.mp hnone) rfl (if_neg hfree)
  | abort _ _ kept =>
    rcases kept with rfl | rfl
    · exact hsame _ rfl (fun hnone => Option.isNone_iff_eq_none.mp hnone) rfl rfl
    · exact hdropped rfl rfl

/-- A client that stays as it was or that a call of its own leaves with an error keeps its answers. -/
theorem Kept.answered_step (h : s.Kept) (hm : Client.Stepped s.client own c) :
    ∀ n k a, (n, .answered k a) ∈ c.outcomes →
      k = n ∧ ∃ r ∈ s.replies, r.number = n ∧ (Wire.decode? r.text : Option NextStateAnswer) = some a := by
  intro n k a hmem
  cases hm with
  | begin | acquire | opened | send | skip | stop => exact h.answered n k a hmem
  | refuse | fail | abort =>
    rcases List.mem_append.mp hmem with hmem | hmem
    · exact h.answered n k a hmem
    · cases List.mem_singleton.mp hmem
  | @answered n' k' l f a' rest hin stream frames answer =>
    rcases List.mem_append.mp hmem with hmem | hmem
    · exact h.answered n k a hmem
    · cases List.mem_singleton.mp hmem
      have hsome : (Client.answerIn? f).isSome = true := by rw [answer]; rfl
      obtain ⟨j, -, rfl, hphase, -, hfits, -⟩ := (h.slot_of_isIn hin).of_isIn h.numbered hin
      rw [Call.Fits, hphase] at hfits
      obtain ⟨l', hl', hawaits⟩ := hfits
      obtain rfl : l = l' := Option.some.inj (stream.symm.trans hl')
      obtain ⟨rfl, -⟩ := hawaits.read frames hsome
      obtain ⟨r, hr, hframe⟩ := h.frames l stream _ (frames ▸ List.mem_cons_self) hsome
      obtain ⟨hnumber, rfl⟩ := Prod.mk.inj hframe
      exact ⟨rfl, r, hr, hnumber.symm, Option.some.inj answer⟩

theorem Kept.client (h : s.Kept) (hm : Client.Stepped s.client own c) : Kept (s.advanced own c) := by
  have hfresh : ∀ q ∈ s.client.asks own, q.1 = s.client.fresh := by
    intro q hq
    cases own with
    | call => exact List.mem_singleton.mp hq ▸ rfl
    | _ => cases hq
  refine ⟨h.numbered.step hm, Client.Slot.step h.slot h.numbered hm, ?_, fun k hk => ?_, ?_, ?_, fun k hk hphase => ?_, ?_,
    fun l' hl' f hf => ?_, h.answered_step hm⟩
  · rw [advanced, List.map_append, h.asked_numbers, ← Client.range_fresh hm]
  · rcases Client.mem_calls_step h.numbered hm hk with hasked | ⟨j, hj, hnumber, hrequest, -⟩
    · exact List.mem_append_right _ hasked
    · exact List.mem_append_left _ (hnumber ▸ hrequest ▸ h.calls_asked j hj)
  · intro q hq
    rcases List.mem_append.mp hq with hq | hq
    · exact List.mem_append_left _ (h.sent_asked q hq)
    · rcases Client.sends_cases h.numbered hm with hnone | ⟨k, hk, -, -, hone⟩
      · exact absurd (hnone ▸ hq) List.not_mem_nil
      · rw [hone] at hq
        exact List.mem_append_left _ (List.mem_singleton.mp hq ▸ h.calls_asked k hk)
  · rw [advanced, List.map_append]
    rcases Client.sends_cases h.numbered hm with hnone | ⟨k, hk, hphase, -, hone⟩
    · rw [hnone, List.map_nil, List.append_nil]
      exact h.sent_nodup
    · rw [hone]
      refine (List.perm_append_singleton ..).nodup_iff.mpr (List.nodup_cons.mpr ⟨h.unsent k hk ?_, h.sent_nodup⟩)
      rw [hphase]
      nofun
  · rw [advanced, List.map_append, List.mem_append, not_or]
    rcases Client.mem_calls_step h.numbered hm hk with hasked | ⟨j, hj, hnumber, -, hunsent⟩
    · constructor
      · intro hmem
        obtain ⟨q, hq, heq⟩ := List.mem_map.mp hmem
        exact (h.asked_lt (h.sent_asked q hq)).ne (heq.trans (hfresh _ hasked))
      · rcases Client.sends_cases h.numbered hm with hnone | ⟨-, -, -, hnone, -⟩
        · rw [hnone]
          exact List.not_mem_nil
        · exact absurd (hnone ▸ hasked) List.not_mem_nil
    · obtain ⟨hnot, hsends⟩ := hunsent hphase
      exact hnumber ▸ ⟨h.unsent j hj hnot, hsends⟩
  · refine .trans (.append_left _ (h.pending_step hm)) ?_
    rw [← List.append_assoc]
    exact .append_right _ h.served
  · obtain ⟨l, hl, hf⟩ := Client.mem_frames_step hm hl' hf
    exact h.frames l hl f hf

end

/-! ### Moves of the plugin -/

/-- The plugin does something to a stream of the client, and may note an answer. -/
theorem Kept.of_stream (h : s.Kept) {l : Link} (stream : s.client.stream = some l) (l' : Link)
    {replies : List (SessionReply σ)} (hsub : s.replies ⊆ replies) (hserved : (replies.map SessionReply.key ++
      ((some l').toList ++ s.dropped).flatMap (·.requests)).Perm s.sent)
    (hframes : ∀ f ∈ l'.frames, (Client.answerIn? f.2).isSome → f ∈ l.frames ∨ ∃ r ∈ replies, f = r.frame)
    (hquiet : l.Quiet → l'.Quiet) (hawaits : ∀ n, l.Awaits n → l'.Awaits n) (actuator : Actuator σ) (memory : σ) :
    Kept { s with client := { s.client with stream := some l' }, actuator := actuator, memory := memory,
                  replies := replies } := by
  refine ⟨h.numbered.of_perm (.refl _) rfl, fun hrunning => (h.slot hrunning).of_stream stream hquiet hawaits,
    h.asked_numbers, h.calls_asked, h.sent_asked, h.sent_nodup, h.unsent, hserved, fun l₁ hl₁ f hf hsome => ?_,
    fun n k a ha => ?_⟩
  · cases hl₁
    rcases hframes f hf hsome with hf | hr
    · obtain ⟨r, hr, heq⟩ := h.frames l stream f hf hsome
      exact ⟨r, hsub hr, heq⟩
    · exact hr
  · obtain ⟨heq, r, hr, hreply⟩ := h.answered n k a ha
    exact ⟨heq, r, hsub hr, hreply⟩

/-- The plugin does something to the streams that the client has let go of, and may note an answer. -/
theorem Kept.of_dropped (h : s.Kept) {dropped : List Link} {replies : List (SessionReply σ)} (hsub : s.replies ⊆ replies)
    (hserved : (replies.map SessionReply.key ++ (s.client.stream.toList ++ dropped).flatMap (·.requests)).Perm s.sent)
    (actuator : Actuator σ) (memory : σ) :
    Kept { s with actuator := actuator, memory := memory, dropped := dropped, replies := replies } := by
  refine ⟨h.numbered, h.slot, h.asked_numbers, h.calls_asked, h.sent_asked, h.sent_nodup, h.unsent, hserved,
    fun l hl f hf hsome => ?_, fun n k a ha => ?_⟩
  · obtain ⟨r, hr, heq⟩ := h.frames l hl f hf hsome
    exact ⟨r, hsub hr, heq⟩
  · obtain ⟨heq, r, hr, hreply⟩ := h.answered n k a ha
    exact ⟨heq, r, hsub hr, hreply⟩

omit [Json.Reading] in
/-- An answer takes its request from those that no session has answered. -/
theorem served_reply (r : SessionReply σ) (replies : List (SessionReply σ)) (before after : List (Nat × String)) :
    ((replies ++ [r]).map SessionReply.key ++ (before ++ after)).Perm
      (replies.map SessionReply.key ++ (before ++ r.key :: after)) := by
  rw [List.map_append, List.append_assoc, List.map_singleton, List.singleton_append]
  exact .append_left _ List.perm_middle.symm

theorem Kept.hangUp (h : s.Kept) {l : Link} (stream : s.client.stream = some l) (actuator : Actuator σ) (memory : σ) :
    Kept { s with client := { s.client with stream := some { l with ended := true } }, actuator := actuator,
                  memory := memory } := by
  have hserved := h.served
  rw [pending, stream] at hserved
  refine h.of_stream stream { l with ended := true } (List.Subset.refl _) hserved (fun f hf _ => .inl hf)
    (fun hquiet => ⟨hquiet.1, hquiet.2⟩) (fun n hn => ?_) _ _
  cases hn with
  | asked request requests frames => exact .asked request requests frames
  | answered requests before after f frames answer others => exact .answered requests before after f frames answer others

theorem Kept.step (h : s.Kept) (hm : Stepped s m s') : s'.Kept := by
  cases hm with
  | client hm => exact h.client hm
  | @answer l request rest stream requests =>
    have hanswer : (Client.answerIn? (s.reply request).frame.2).isSome = true := rfl
    have hrequests : l.requests = (request.1, request.2) :: l.requests.tail := by rw [requests]; rfl
    have htail : l.requests.tail = rest := by rw [requests]; rfl
    refine h.of_stream stream _ (List.subset_append_left _ _) ?_ (fun f hf _ => ?_) (fun hquiet => ?_) (fun n hn => ?_) _ _
    · refine .trans (served_reply (s.reply request) s.replies [] _) (.trans (.of_eq ?_) h.served)
      rw [pending, stream]
      simp only [Option.toList_some, List.flatMap_cons, requests, List.cons_append, List.nil_append]
      rfl
    · rcases List.mem_append.mp hf with hf | hf
      · exact .inl hf
      · exact .inr ⟨_, List.mem_append_right _ (List.mem_singleton_self _), List.mem_singleton.mp hf⟩
    · rw [hquiet.requests] at requests
      cases requests
    · exact htail ▸ (hn.serve hrequests hanswer false).2
  | @answerDropped before after l request rest dropped requests =>
    refine h.of_dropped (List.subset_append_left _ _) ?_ _ _
    have hold : (s.client.stream.toList ++ s.dropped).flatMap (·.requests) =
        (s.client.stream.toList ++ before).flatMap (·.requests) ++ (s.reply request).key ::
          (rest ++ after.flatMap (·.requests)) := by
      rw [dropped, ← List.append_assoc, List.flatMap_append, List.flatMap_cons, requests]
      rfl
    rw [← List.append_assoc, List.flatMap_append, List.flatMap_cons]
    refine .trans (served_reply (s.reply request) s.replies _ _) (.trans (.of_eq ?_) h.served)
    rw [pending, hold]
  | @signal f l stream idle =>
    have hidle : Frame.Idle (s.client.fresh, f) := idle
    refine h.of_stream stream _ (List.Subset.refl _) ?_ (fun g hg hsome => ?_) (fun hquiet => hquiet.signal hidle)
      (fun n hn => hn.signal hidle) _ _
    · have hserved := h.served
      rw [pending, stream] at hserved
      exact hserved
    · rcases List.mem_append.mp hg with hg | hg
      · exact .inl hg
      · exact absurd (List.mem_singleton.mp hg ▸ hidle) (Frame.not_idle hsome)
  | @hangUp l stream =>
    exact h.hangUp stream _ _
  | restart actuator memory =>
    have hrequests : (s.dropped.map fun l => { l with ended := true }).flatMap (·.requests) =
        s.dropped.flatMap (·.requests) := by
      rw [List.flatMap_map]
    cases stream : s.client.stream with
    | none =>
      have hclient : { s.client with stream := (none : Option Link) } = s.client := by rw [← stream]
      rw [Option.map_none, hclient]
      refine h.of_dropped (List.Subset.refl _) ?_ _ _
      rw [List.flatMap_append, hrequests, ← List.flatMap_append]
      exact h.served
    | some l =>
      have hended := h.hangUp stream actuator memory
      refine hended.of_dropped (List.Subset.refl _) ?_ _ _
      rw [List.flatMap_append, hrequests, ← List.flatMap_append]
      exact hended.served

/-! ### Runs -/

theorem run_append (s : Conversation σ) (moves more : List (ConversationMove σ)) :
    s.run? (moves ++ more) = (s.run? moves).bind (run? · more) := by
  induction moves generalizing s with
  | nil => rfl
  | cons m moves ih =>
    rw [List.cons_append, run?, run?, Option.bind_assoc]
    exact congrArg _ (funext ih)

theorem Kept.run (h : s.Kept) (hrun : s.run? moves = some s') : s'.Kept := by
  induction moves generalizing s with
  | nil => exact Option.some.inj hrun ▸ h
  | cons m moves ih =>
    obtain ⟨s₁, hstep, hrest⟩ := Option.bind_eq_some_iff.mp hrun
    exact ih (h.step (stepped_of_step? hstep)) hrest

theorem stopped_step (hm : Stepped s m s') (hstopped : s.client.stopped = true) :
    s'.client.stopped = true ∧ s'.sent = s.sent ∧ s.client.outcomes ⊆ s'.client.outcomes := by
  cases hm with
  | client hm =>
    obtain ⟨hstopped', hsends⟩ := Client.stopped_step hm hstopped
    refine ⟨hstopped', ?_, Client.outcomes_step hm⟩
    rw [advanced, hsends, List.append_nil]
  | _ => exact ⟨hstopped, rfl, List.Subset.refl _⟩

theorem stopped_run (hrun : s.run? moves = some s') (hstopped : s.client.stopped = true) :
    s'.sent = s.sent ∧ s.client.outcomes ⊆ s'.client.outcomes := by
  induction moves generalizing s with
  | nil =>
    cases hrun
    exact ⟨rfl, List.Subset.refl _⟩
  | cons m moves ih =>
    obtain ⟨s₁, hstep, hrest⟩ := Option.bind_eq_some_iff.mp hrun
    obtain ⟨hstopped₁, hsent, houtcomes⟩ := stopped_step (stepped_of_step? hstep) hstopped
    obtain ⟨hsent', houtcomes'⟩ := ih hrest hstopped₁
    exact ⟨hsent'.trans hsent, List.Subset.trans houtcomes houtcomes'⟩

/-- A call of a stopped client fails at once and for good, and its request never goes out. -/
theorem Kept.call_of_stopped (h : s.Kept) (hstopped : s.client.stopped = true) (request : String) :
    ∃ s', s.step? (.client (.call request)) = some s' ∧ (s.client.fresh, request) ∈ s'.asked ∧
      ∀ more s'', s'.run? more = some s'' →
        (∀ o, (s.client.fresh, o) ∈ s''.client.outcomes ↔ o = .failed .stopped) ∧
        s.client.fresh ∉ s''.sent.map (·.1) := by
  have hcall : s.client.step? (.call request) =
      some ({ s.client with fresh := s.client.fresh + 1 }.finish s.client.fresh (.failed .stopped)) := by
    rw [Client.step?]
    exact if_pos hstopped
  have hstep : s.step? (.client (.call request)) = some (s.advanced (.call request)
      ({ s.client with fresh := s.client.fresh + 1 }.finish s.client.fresh (.failed .stopped))) := by
    rw [step?, hcall]
    rfl
  have h' := h.step (stepped_of_step? hstep)
  refine ⟨_, hstep, List.mem_append_right _ (List.mem_singleton_self _), fun more s'' hrun => ?_⟩
  obtain ⟨hsent, houtcomes⟩ := stopped_run hrun hstopped
  have hmem := houtcomes (List.mem_append_right s.client.outcomes (List.mem_singleton_self _))
  refine ⟨fun o => ⟨fun ho => ?_, fun ho => ho ▸ hmem⟩, fun hmem => ?_⟩
  -- The call has failed already, and no call has two outcomes.
  · have hnodup := (List.nodup_append.mp (h'.run hrun).numbered.nodup).2.1
    exact (Prod.mk.inj (List.inj_on_of_nodup_map hnodup ho hmem rfl)).2
  · have hsame : s''.sent = s.sent := hsent.trans (List.append_nil _)
    rw [hsame] at hmem
    obtain ⟨q, hq, heq⟩ := List.mem_map.mp hmem
    exact (h.asked_lt (h.sent_asked q hq)).ne heq

theorem Kept.reply_mem_sent (h : s.Kept) {r : SessionReply σ} (hr : r ∈ s.replies) : r.key ∈ s.sent :=
  h.served.subset (List.mem_append_left _ (List.mem_map_of_mem hr))

/-- After any moves of a client and its plugin: a call that was answered got what a session gave for the request of that very
    call, which no session has answered twice; while no call uses the stream of a running client, nothing is outstanding on
    it; and every call that begins after the client was stopped fails with that error and never sends its request. -/
theorem run_answers_own_call (info : Info) (callTimeoutMs : Nat) (actuator : Actuator σ) (memory : σ)
    (moves : List (ConversationMove σ)) (h : run? (initial info callTimeoutMs actuator memory) moves = some s) :
    (∀ n k a, (n, .answered k a) ∈ s.client.outcomes → k = n ∧ ∃ r ∈ s.replies, r.number = n ∧ (n, r.request) ∈ s.asked ∧
      (Wire.decode? r.text : Option NextStateAnswer) = some a) ∧
    (s.asked.map (·.1)).Nodup ∧ (s.replies.map (·.number)).Nodup ∧
    (s.client.holder = none → s.client.stopped = false → ∀ l, s.client.stream = some l → l.Quiet) ∧
    (s.client.stopped = true → ∀ request, ∃ s', s.step? (.client (.call request)) = some s' ∧
      (s.client.fresh, request) ∈ s'.asked ∧ ∀ more s'', s'.run? more = some s'' →
        (∀ o, (s.client.fresh, o) ∈ s''.client.outcomes ↔ o = .failed .stopped) ∧
        s.client.fresh ∉ s''.sent.map (·.1)) := by
  have hs : s.Kept := (Kept.initial info callTimeoutMs actuator memory).run h
  refine ⟨fun n k a ha => ?_, ?_, ?_, fun hholder hrunning l hl => ?_, hs.call_of_stopped⟩
  · obtain ⟨hk, r, hr, rfl, hread⟩ := hs.answered n k a ha
    exact ⟨hk, r, hr, rfl, hs.sent_asked _ (hs.reply_mem_sent hr), hread⟩
  · rw [hs.asked_numbers]
    exact List.nodup_range
  · have hnodup := (hs.served.map (·.1)).nodup_iff.mpr hs.sent_nodup
    rw [List.map_append, List.map_map] at hnodup
    exact (List.nodup_append.mp hnodup).1
  · cases hs.slot hrunning with
    | free _ _ quiet => exact quiet l hl
    | held _ _ holder => exact absurd (hholder.symm.trans holder) nofun

end

/-! ### A late answer

A call times out, and its answer comes late. The next call uses a new stream and gets its own answer. -/

section
variable [Json.Reading] {info : Info} {ms : Nat} {a : Actuator σ} {w : σ} {early late : SessionReply σ}

/-- The moves after the first call has begun, up to the frame with the answer to the second one. -/
def lateMoves (σ : Type) (request : String) : List (ConversationMove σ) :=
  [.client (.acquire 0), .client (.opened 0 none), .client (.send 0), .client (.timeOut 0), .client (.call request),
    .client (.acquire 1), .answerDropped 0, .client (.opened 1 none), .client (.send 1), .answer]

/-- Both answers are there, the late one on the stream that the client has let go of. -/
def lateAnswers (info : Info) (ms : Nat) (early late : SessionReply σ) : Conversation σ where
  client :=
    { info := info
      callTimeoutMs := ms
      holder := some 1
      stream := some { frames := [late.frame] }
      calls := [⟨1, late.request, .receiving⟩]
      fresh := 2
      outcomes := [(0, .failed (.timeout (ms * 1000000)))] }
  actuator := late.actuator
  memory := late.memoryAfter
  dropped := [{ frames := [early.frame] }]
  asked := [(0, early.request), (1, late.request)]
  sent := [(0, early.request), (1, late.request)]
  replies := [early, late]

/-- The conversation in which the second call has its answer, although the first one's came too late. -/
def lateEnd (info : Info) (ms : Nat) (early late : SessionReply σ) (answer : NextStateAnswer) : Conversation σ :=
  let s := lateAnswers info ms early late
  { s with client := { s.client with stream := some {} }.finish 1 (.answered 1 answer) }

theorem run_lateMoves (request request' : String) :
    run? (initial info ms a w) (.client (.call request) :: lateMoves σ request') =
      some (lateAnswers info ms ⟨0, request, a, w⟩ ⟨1, request', a, (answerText a request w).2⟩) := rfl

theorem receive_lateAnswers {answer : NextStateAnswer} (hnumber : late.number = 1)
    (hread : Wire.decode? late.text = some answer) :
    (lateAnswers info ms early late).run? [.client (.receive 1)] = some (lateEnd info ms early late answer) := by
  have hstep : (lateAnswers info ms early late).client.step? (.receive 1) =
      (lateAnswers info ms early late).client.take? 1 { frames := [late.frame] } := rfl
  have htake : (lateAnswers info ms early late).client.take? 1 { frames := [late.frame] } =
      some (lateEnd info ms early late answer).client := by
    simp only [Client.take?, SessionReply.frame, Client.answerIn?, hread, hnumber]
    rfl
  rw [run?, step?, hstep, htake]
  rfl

end

/-- An actuator that proposes to go to the goal, but not from there. -/
def returner : Actuator Unit where
  name := "returner"
  group := "test"
  nextState state goal _ w := (.ok (if state = goal then [] else [⟨goal, 1.0, { name := "return" }⟩]), w)
  perform _ _ w := (.ok (), w)
  effect _ _ w := (.ok (), w)

/-- The request for candidates from a state. -/
def asksFrom (state : State) : NextStateRequest := ⟨state, there, .empty⟩

/-- What the returner answers to it. -/
def returns (state : State) : NextStateAnswer :=
  .ofCandidates (candidatesOf (returner.nextState state there .empty ()).1)

/-- The info under which the returner registers. -/
def returnerInfo : Info := ⟨"returner", "localhost:4000", version, defaultGroup, .actuator⟩

/-- The first call asks from the goal, where there is nothing to propose; the second one asks from elsewhere. -/
theorem run_answers_own_call_late :
    let _ : Json.Reading := .scaled
    ∃ s, run? (initial returnerInfo 5 returner ())
        ((.client (.call (Wire.encode (asksFrom there))) :: lateMoves Unit (Wire.encode (asksFrom here))) ++
          [.client (.receive 1)]) = some s ∧
      (1, .answered 1 (returns here)) ∈ s.client.outcomes ∧ returns here ≠ returns there ∧
      ∃ r ∈ s.replies, r.number = 1 ∧ (1, r.request) ∈ s.asked ∧ Wire.decode? r.text = some (returns here) := by
  have hasked : @Wire.Carried _ _ .scaled (asksFrom here) := by decide +kernel
  have hreturned : @Wire.Carried _ _ .scaled (returns here) := by decide +kernel
  intro _
  have hanswer : answerText returner (Wire.encode (asksFrom here)) () = (Wire.encode (returns here), ()) :=
    answerText_encode returner hasked rfl
  have hread : Wire.decode? (SessionReply.text ⟨1, Wire.encode (asksFrom here), returner, ()⟩) = some (returns here) := by
    rw [SessionReply.text, hanswer, Wire.decode?_carried hreturned]
  have hmemory : (answerText returner (Wire.encode (asksFrom there)) ()).2 = () := Subsingleton.elim _ _
  have hrun : run? (initial returnerInfo 5 returner ())
      ((.client (.call (Wire.encode (asksFrom there))) :: lateMoves Unit (Wire.encode (asksFrom here))) ++
        [.client (.receive 1)]) =
      some (lateEnd returnerInfo 5 ⟨0, Wire.encode (asksFrom there), returner, ()⟩
        ⟨1, Wire.encode (asksFrom here), returner, ()⟩ (returns here)) := by
    rw [run_append, run_lateMoves, hmemory, Option.bind_some]
    exact receive_lateAnswers rfl hread
  have hanswered : (1, .answered 1 (returns here)) ∈ (lateEnd returnerInfo 5 ⟨0, Wire.encode (asksFrom there), returner, ()⟩
      ⟨1, Wire.encode (asksFrom here), returner, ()⟩ (returns here)).client.outcomes :=
    List.mem_append_right _ (List.mem_singleton_self _)
  obtain ⟨-, r, hr, hnumber, hasked, hdecode⟩ :=
    (run_answers_own_call _ 5 returner () _ hrun).1 1 1 (returns here) hanswered
  exact ⟨_, hrun, hanswered, by decide, r, hr, hnumber, hasked, hdecode⟩

end Conversation
end Intendant.Plugin
