import Mathlib.Data.List.Nodup
import Mathlib.Order.Nat
import Intendant.Plugin.Conversation

/-! # The stream of a client

One call at a time uses the stream. While no call does, the stream carries no request and no answer; while a call waits
for its answer, the stream carries that one request or its answer. Every move of a running client keeps this
(`Slot.step`), however a call ends. -/

namespace Intendant.Plugin

/-! ### Calls and their numbers -/

namespace Client

/-- The numbers of the calls under way and of the calls that are over. -/
def numbers (c : Client) : List Nat := c.calls.map (·.number) ++ c.outcomes.map (·.1)

/-- No two calls have one number, and the next number is new. -/
structure Numbered (c : Client) : Prop where
  nodup : c.numbers.Nodup
  lt : ∀ n ∈ c.numbers, n < c.fresh

section
variable {c c' : Client} {n : Nat} {k : Call} {phase : CallPhase}

theorem mem_of_find? (h : c.find? n = some k) : k ∈ c.calls ∧ k.number = n :=
  ⟨List.mem_of_find?_eq_some h, by simpa using List.find?_some h⟩

theorem isIn_eq_true : c.isIn n phase = true ↔
    c.stopped = false ∧ c.holder = some n ∧ (c.find? n).map (·.phase) = some phase := by
  simp [isIn, and_assoc]

theorem mem_of_isIn (h : c.isIn n phase = true) : ∃ k ∈ c.calls, k.number = n ∧ k.phase = phase := by
  obtain ⟨k, hk, hphase⟩ := Option.map_eq_some_iff.mp (isIn_eq_true.mp h).2.2
  obtain ⟨hmem, hnumber⟩ := mem_of_find? hk
  exact ⟨k, hmem, hnumber, hphase⟩

theorem mem_number_of_isIn (h : c.isIn n phase = true) : n ∈ c.calls.map (·.number) := by
  obtain ⟨k, hk, hnumber, -⟩ := mem_of_isIn h
  exact List.mem_map.mpr ⟨k, hk, hnumber⟩

theorem Numbered.eq_of_number (h : c.Numbered) {j : Call} (hj : j ∈ c.calls) (hk : k ∈ c.calls)
    (heq : j.number = k.number) : j = k :=
  List.inj_on_of_nodup_map (List.nodup_append.mp h.nodup).1 hj hk heq

theorem map_number_setPhase (c : Client) (n : Nat) (phase : CallPhase) :
    (c.setPhase n phase).calls.map (·.number) = c.calls.map (·.number) := by
  rw [setPhase, List.map_map]
  refine List.map_congr_left fun k _ => ?_
  simp only [Function.comp_apply]
  split <;> rfl

theorem numbers_setPhase (c : Client) (n : Nat) (phase : CallPhase) : (c.setPhase n phase).numbers = c.numbers :=
  congrArg (· ++ c.outcomes.map (·.1)) (map_number_setPhase c n phase)

/-- A call that ends goes from the calls under way to those that are over. -/
theorem numbers_finish (h : c.Numbered) (hmem : n ∈ c.calls.map (·.number)) (o : CallOutcome) :
    (c.finish n o).numbers.Perm c.numbers := by
  have hfilter : (c.calls.filter (·.number ≠ n)).map (·.number) = (c.calls.map (·.number)).erase n := by
    rw [(List.nodup_append.mp h.nodup).1.erase_eq_filter, List.filter_map]
    exact congrArg _ (List.filter_congr fun k _ => by by_cases heq : k.number = n <;> simp [heq])
  have hmoved : (c.finish n o).numbers = (c.calls.map (·.number)).erase n ++ (c.outcomes.map (·.1) ++ [n]) := by
    simp only [numbers, finish, hfilter, List.map_append, List.map_cons, List.map_nil]
  rw [hmoved, ← List.append_assoc]
  refine (List.perm_append_singleton n _).trans ?_
  exact .append_right (c.outcomes.map (·.1)) (List.perm_cons_erase hmem).symm

theorem numbers_refuse (h : c.Numbered) (o : CallOutcome) :
    ({ c with fresh := c.fresh + 1 }.finish c.fresh o).numbers.Perm (c.fresh :: c.numbers) := by
  have hfilter : c.calls.filter (·.number ≠ c.fresh) = c.calls := by
    refine List.filter_eq_self.mpr fun k hk => decide_eq_true ?_
    exact (h.lt _ (List.mem_append_left _ (List.mem_map_of_mem hk))).ne
  simp only [numbers, finish, hfilter, List.map_append, List.map_cons, List.map_nil]
  rw [← List.append_assoc]
  exact List.perm_append_singleton ..

theorem Numbered.of_perm (h : c.Numbered) (hnumbers : c'.numbers.Perm c.numbers) (hfresh : c'.fresh = c.fresh) :
    c'.Numbered :=
  ⟨hnumbers.nodup_iff.mpr h.nodup, fun n hn => hfresh ▸ h.lt n (hnumbers.mem_iff.mp hn)⟩

theorem Numbered.add (h : c.Numbered) (hnumbers : c'.numbers.Perm (c.fresh :: c.numbers))
    (hfresh : c'.fresh = c.fresh + 1) : c'.Numbered := by
  refine ⟨hnumbers.nodup_iff.mpr (List.nodup_cons.mpr ⟨fun hmem => (h.lt _ hmem).ne rfl, h.nodup⟩), fun n hn => ?_⟩
  rw [hfresh]
  rcases List.mem_cons.mp (hnumbers.mem_iff.mp hn) with rfl | hn
  · exact Nat.lt_succ_self _
  · exact Nat.lt_succ_of_lt (h.lt n hn)

theorem mem_calls_setPhase (h : k ∈ (c.setPhase n phase).calls) :
    ∃ j ∈ c.calls, j.number = k.number ∧ j.request = k.request ∧
      (j.number = n ∧ k.phase = phase ∨ j.number ≠ n ∧ k.phase = j.phase) := by
  obtain ⟨j, hj, rfl⟩ := List.mem_map.mp h
  by_cases heq : j.number = n
  · rw [if_pos heq]
    exact ⟨j, hj, rfl, rfl, .inl ⟨heq, rfl⟩⟩
  · rw [if_neg heq]
    exact ⟨j, hj, rfl, rfl, .inr ⟨heq, rfl⟩⟩

theorem sends_eq (h : c.find? k.number = some k) : c.sends (.send k.number) = [(k.number, k.request)] := by
  simp [sends, h]

end
end Client

/-! ### What is outstanding -/

variable [Json.Reading]

/-- A frame that holds no answer. -/
def Frame.Idle (f : Nat × Frame) : Prop := Client.answerIn? f.2 = none

/-- A stream on which nothing is outstanding. -/
structure Link.Quiet (l : Link) : Prop where
  requests : l.requests = []
  frames : ∀ f ∈ l.frames, Frame.Idle f

/-- A stream on which the answer to one call is outstanding: its request has not been answered, or its answer has not been
    read. -/
inductive Link.Awaits (l : Link) (n : Nat) : Prop
  | asked (request : String) (requests : l.requests = [(n, request)]) (frames : ∀ f ∈ l.frames, Frame.Idle f)
  | answered (requests : l.requests = []) (before after : List (Nat × Frame)) (f : Frame)
      (frames : l.frames = before ++ (n, f) :: after) (answer : (Client.answerIn? f).isSome)
      (others : ∀ g ∈ before ++ after, Frame.Idle g)

section
variable {l : Link} {n number : Nat} {f : Frame} {g : Nat × Frame} {rest : List (Nat × Frame)} {request : String}

theorem Frame.not_idle (h : (Client.answerIn? f).isSome) : ¬Frame.Idle (number, f) := by
  intro hidle
  rw [Frame.Idle] at hidle
  simp [hidle] at h

theorem Link.Awaits.skip (h : l.Awaits n) (frames : l.frames = g :: rest) (hidle : Frame.Idle g) :
    Link.Awaits { l with frames := rest } n := by
  cases h with
  | asked request requests hframes =>
    exact .asked request requests fun f hf => hframes f (frames ▸ List.mem_cons_of_mem _ hf)
  | answered requests before after f hframes answer others =>
    cases before with
    | nil =>
      obtain ⟨rfl, -⟩ := List.cons.inj (frames.symm.trans hframes)
      exact absurd hidle (Frame.not_idle answer)
    | cons _ before =>
      obtain ⟨rfl, hrest⟩ := List.cons.inj (frames.symm.trans hframes)
      exact .answered requests before after f hrest answer fun g hg => others g (List.mem_cons_of_mem _ hg)

/-- The first answer on a stream is that to the call which waits, and no other one follows. -/
theorem Link.Awaits.read (h : l.Awaits n) (frames : l.frames = (number, f) :: rest)
    (answer : (Client.answerIn? f).isSome) : number = n ∧ Link.Quiet { l with frames := rest } := by
  cases h with
  | asked request requests hframes =>
    exact absurd (hframes _ (frames ▸ List.mem_cons_self)) (Frame.not_idle answer)
  | answered requests before after f' hframes _ others =>
    cases before with
    | nil =>
      obtain ⟨heq, rfl⟩ := List.cons.inj (frames.symm.trans hframes)
      exact ⟨(Prod.mk.inj heq).1, requests, others⟩
    | cons _ before =>
      obtain ⟨rfl, -⟩ := List.cons.inj (frames.symm.trans hframes)
      exact absurd (others _ List.mem_cons_self) (Frame.not_idle answer)

theorem Link.Awaits.serve (h : l.Awaits n) (requests : l.requests = (number, request) :: l.requests.tail)
    (answer : (Client.answerIn? f).isSome) (ended : Bool) :
    number = n ∧ Link.Awaits ⟨l.requests.tail, l.frames ++ [(number, f)], ended⟩ n := by
  cases h with
  | asked request' requests' hframes =>
    rw [requests'] at requests
    obtain ⟨heq, -⟩ := List.cons.inj requests
    obtain ⟨rfl, -⟩ := Prod.mk.inj heq
    rw [requests']
    exact ⟨rfl, .answered rfl l.frames [] f rfl answer (by simpa using hframes)⟩
  | answered requests' =>
    rw [requests'] at requests
    cases requests

theorem Link.Awaits.signal (h : l.Awaits n) (hidle : Frame.Idle g) :
    Link.Awaits { l with frames := l.frames ++ [g] } n := by
  cases h with
  | asked request requests hframes =>
    refine .asked request requests fun f hf => ?_
    rcases List.mem_append.mp hf with hf | hf
    · exact hframes f hf
    · exact List.mem_singleton.mp hf ▸ hidle
  | answered requests before after f hframes answer others =>
    refine .answered requests before (after ++ [g]) f (by simp [hframes]) answer fun g' hg' => ?_
    rw [← List.append_assoc] at hg'
    rcases List.mem_append.mp hg' with hg' | hg'
    · exact others g' hg'
    · exact List.mem_singleton.mp hg' ▸ hidle

theorem Link.Quiet.signal (h : l.Quiet) (hidle : Frame.Idle g) : Link.Quiet { l with frames := l.frames ++ [g] } := by
  refine ⟨h.requests, fun f hf => ?_⟩
  rcases List.mem_append.mp hf with hf | hf
  · exact h.frames f hf
  · exact List.mem_singleton.mp hf ▸ hidle

end

/-- What the stream is like while a call uses it. -/
def Call.Fits (k : Call) (stream : Option Link) : Prop :=
  match k.phase with
  | .waiting => False
  | .opening => stream = none
  | .sending => ∃ l, stream = some l ∧ l.Quiet
  | .receiving => ∃ l, stream = some l ∧ l.Awaits k.number

namespace Client

/-- Who uses the stream, and what the stream is like. -/
inductive Slot (c : Client) : Prop
  | free (holder : c.holder = none) (waiting : ∀ k ∈ c.calls, k.phase = .waiting) (quiet : ∀ l, c.stream = some l → l.Quiet)
  | held (k : Call) (mem : k ∈ c.calls) (holder : c.holder = some k.number) (fits : k.Fits c.stream)
      (waiting : ∀ j ∈ c.calls, j.number ≠ k.number → j.phase = .waiting)

/-- What a move of the client's own can do. -/
inductive Stepped (c : Client) : ClientMove → Client → Prop
  | refuse (request : String) (stopped : c.stopped = true) :
      Stepped c (.call request) ({ c with fresh := c.fresh + 1 }.finish c.fresh (.failed .stopped))
  | begin (request : String) (running : c.stopped = false) :
      Stepped c (.call request) { c with fresh := c.fresh + 1, calls := c.calls ++ [⟨c.fresh, request, .waiting⟩] }
  | acquire {k : Call} (mem : k ∈ c.calls) (waiting : k.phase = .waiting) (running : c.stopped = false)
      (free : c.holder = none) :
      Stepped c (.acquire k.number)
        ({ c with holder := some k.number }.setPhase k.number (if c.stream.isNone then .opening else .sending))
  | opened {n : Nat} (h : c.isIn n .opening = true) :
      Stepped c (.opened n none) ({ c with stream := some {} }.setPhase n .sending)
  | send {k : Call} {l : Link} (h : c.isIn k.number .sending = true) (find : c.find? k.number = some k)
      (stream : c.stream = some l) :
      Stepped c (.send k.number)
        ({ c with stream := some { l with requests := l.requests ++ [(k.number, k.request)] } }.setPhase k.number .receiving)
  | skip {n : Nat} {l : Link} {f : Nat × Frame} {rest : List (Nat × Frame)} (h : c.isIn n .receiving = true)
      (stream : c.stream = some l) (frames : l.frames = f :: rest) (idle : Frame.Idle f) :
      Stepped c (.receive n) { c with stream := some { l with frames := rest } }
  | answered {n k : Nat} {l : Link} {f : Frame} {a : NextStateAnswer} {rest : List (Nat × Frame)}
      (h : c.isIn n .receiving = true) (stream : c.stream = some l) (frames : l.frames = (k, f) :: rest)
      (answer : answerIn? f = some (some a)) :
      Stepped c (.receive n) ({ c with stream := some { l with frames := rest } }.finish n (.answered k a))
  | fail {m : ClientMove} {n : Nat} {phase : CallPhase} (e : ActuatorError) (h : c.isIn n phase = true)
      (quiet : c.asks m = [] ∧ c.sends m = []) : Stepped c m (c.fail n e)
  | stop : Stepped c .stop { c with stopped := true, stream := if c.holder.isNone then none else c.stream }
  | abort {k : Call} {stream : Option Link} (mem : k ∈ c.calls) (stopped : c.stopped = true)
      (kept : stream = c.stream ∨ stream = none) :
      Stepped c (.abort k.number) { c.finish k.number (.failed .stopped) with stream := stream }

variable {c c' : Client} {m : ClientMove} {n : Nat} {k : Call} {phase : CallPhase}

theorem stepped_of_step? (hown : isOwn m = true) (h : c.step? m = some c') : Stepped c m c' := by
  cases m with
  | serve | hangUp => cases hown
  | call request =>
    simp only [step?] at h
    split at h <;> cases h
    · exact .refuse request ‹_›
    · exact .begin request (Bool.eq_false_iff.mpr ‹_›)
  | acquire n =>
    simp only [step?] at h
    split at h <;> cases h
    rename_i hfree
    obtain ⟨hrunning, hholder, hfind⟩ := hfree
    obtain ⟨k, hk, hwaiting⟩ := Option.map_eq_some_iff.mp hfind
    obtain ⟨hmem, rfl⟩ := mem_of_find? hk
    exact .acquire hmem hwaiting (by simpa using hrunning) hholder
  | opened n failure =>
    simp only [step?] at h
    split at h
    · rename_i hin
      cases failure <;> cases h
      · exact .opened hin
      · exact .fail _ hin ⟨rfl, rfl⟩
    · cases h
  | send n =>
    simp only [step?] at h
    split at h
    · rename_i hin
      simp only [Option.bind_eq_bind, Option.bind_eq_some_iff, Option.pure_def, Option.some.injEq] at h
      obtain ⟨l, hl, k, hk, rfl⟩ := h
      obtain ⟨-, rfl⟩ := mem_of_find? hk
      exact .send hin hk hl
    · cases h
  | receive n =>
    simp only [step?] at h
    split at h
    · rename_i hin
      obtain ⟨l, hl, htake⟩ := Option.bind_eq_some_iff.mp h
      unfold take? at htake
      split at htake
      · split at htake <;> cases htake
        exact .fail _ hin ⟨rfl, rfl⟩
      · rename_i k f rest hframes
        split at htake
        · cases htake
          exact .answered hin hl hframes ‹_›
        · cases htake
          exact .fail _ hin ⟨rfl, rfl⟩
        · split at htake <;> cases htake
          · exact .fail _ hin ⟨rfl, rfl⟩
          · exact .skip hin hl hframes ‹_›
    · cases h
  | timeOut n =>
    simp only [step?] at h
    split at h <;> cases h
    rename_i hin
    rcases hin with hin | hin | hin <;> exact .fail _ hin ⟨rfl, rfl⟩
  | breakOff n e =>
    simp only [step?] at h
    split at h <;> cases h
    rename_i hin
    rcases hin with hin | hin <;> exact .fail _ hin ⟨rfl, rfl⟩
  | stop =>
    cases h
    exact .stop
  | abort n =>
    simp only [step?] at h
    split at h
    · rename_i hstopped
      obtain ⟨k, hk⟩ := Option.isSome_iff_exists.mp hstopped.2
      obtain ⟨hmem, rfl⟩ := mem_of_find? hk
      obtain rfl := Option.some.inj h
      split
      · exact .abort hmem hstopped.1 (.inr rfl)
      · exact .abort hmem hstopped.1 (.inl rfl)
    · cases h

/-! ### Numbers -/

theorem Numbered.step (h : c.Numbered) (hm : Stepped c m c') : c'.Numbered := by
  cases hm with
  | refuse => exact h.add (numbers_refuse h _) rfl
  | begin =>
    refine h.add ?_ rfl
    simp only [numbers, List.map_append, List.map_cons, List.map_nil, List.append_assoc, List.singleton_append]
    exact List.perm_middle
  | acquire | opened | send => exact h.of_perm (.of_eq (numbers_setPhase ..)) rfl
  | answered hin | fail _ hin => exact h.of_perm (numbers_finish h (mem_number_of_isIn hin) _) rfl
  | abort hmem => exact h.of_perm (numbers_finish h (List.mem_map_of_mem hmem) _) rfl
  | skip | stop => exact h.of_perm (.refl _) rfl

/-! ### The stream -/

theorem Slot.of_isIn (h : c.Slot) (hnumbered : c.Numbered) (hin : c.isIn n phase = true) :
    ∃ k ∈ c.calls, k.number = n ∧ k.phase = phase ∧ c.holder = some n ∧ k.Fits c.stream ∧
      ∀ j ∈ c.calls, j.number ≠ n → j.phase = .waiting := by
  obtain ⟨-, hholder, -⟩ := isIn_eq_true.mp hin
  obtain ⟨k', hk', hnumber, hphase⟩ := mem_of_isIn hin
  cases h with
  | free holder => exact absurd (holder.symm.trans hholder) nofun
  | held k mem holder fits waiting =>
    obtain rfl : k.number = n := Option.some.inj (holder.symm.trans hholder)
    obtain rfl := hnumbered.eq_of_number hk' mem hnumber
    exact ⟨k', mem, rfl, hphase, holder, fits, waiting⟩

/-- The call that used the stream ends. -/
theorem Slot.finish (hholder : c.holder = some n) (hwaiting : ∀ j ∈ c.calls, j.number ≠ n → j.phase = .waiting)
    (hquiet : ∀ l, c.stream = some l → l.Quiet) (o : CallOutcome) : (c.finish n o).Slot := by
  refine .free (if_pos hholder) (fun k hk => ?_) hquiet
  obtain ⟨hmem, hne⟩ := List.mem_filter.mp hk
  exact hwaiting k hmem (of_decide_eq_true hne)

theorem Slot.setPhase (hmem : k ∈ c.calls) (hholder : c.holder = some k.number)
    (hwaiting : ∀ j ∈ c.calls, j.number ≠ k.number → j.phase = .waiting)
    (hfits : Call.Fits { k with phase := phase } c.stream) : (c.setPhase k.number phase).Slot := by
  refine .held { k with phase := phase } (List.mem_map.mpr ⟨k, hmem, if_pos rfl⟩) hholder hfits fun j hj hne => ?_
  obtain ⟨j', hj', rfl⟩ := List.mem_map.mp hj
  by_cases heq : j'.number = k.number
  · rw [if_pos heq] at hne
    exact absurd heq hne
  · rw [if_neg heq]
    exact hwaiting j' hj' heq

/-- The plugin does something to the stream that leaves it as it should be. -/
theorem Slot.of_stream {l l' : Link} (h : c.Slot) (hstream : c.stream = some l) (hquiet : l.Quiet → l'.Quiet)
    (hawaits : ∀ n, l.Awaits n → l'.Awaits n) : Slot { c with stream := some l' } := by
  cases h with
  | free holder waiting quiet =>
    refine .free holder waiting fun l₁ hl₁ => ?_
    cases hl₁
    exact hquiet (quiet l hstream)
  | held k mem holder fits waiting =>
    refine .held k mem holder ?_ waiting
    rw [hstream] at fits
    unfold Call.Fits at fits ⊢
    split at fits
    · exact fits
    · cases fits
    · obtain ⟨l₁, hl₁, hfits⟩ := fits
      cases hl₁
      exact ⟨l', rfl, hquiet hfits⟩
    · obtain ⟨l₁, hl₁, hfits⟩ := fits
      cases hl₁
      exact ⟨l', rfl, hawaits _ hfits⟩

theorem Slot.step (h : c.stopped = false → c.Slot) (hnumbered : c.Numbered) (hm : Stepped c m c')
    (hrunning : c'.stopped = false) : c'.Slot := by
  cases hm with
  | refuse _ stopped => exact absurd (stopped.symm.trans hrunning) nofun
  | abort _ stopped => exact absurd (stopped.symm.trans hrunning) nofun
  | stop => cases hrunning
  | begin request running =>
    cases h running with
    | free holder waiting quiet =>
      refine .free holder (fun k hk => ?_) quiet
      rcases List.mem_append.mp hk with hk | hk
      · exact waiting k hk
      · exact List.mem_singleton.mp hk ▸ rfl
    | held k mem holder fits waiting =>
      refine .held k (List.mem_append_left _ mem) holder fits fun j hj hne => ?_
      rcases List.mem_append.mp hj with hj | hj
      · exact waiting j hj hne
      · exact List.mem_singleton.mp hj ▸ rfl
  | @acquire k mem _ running free =>
    cases h running with
    | held _ _ holder => exact absurd (free.symm.trans holder) nofun
    | free holder waiting quiet =>
      refine Slot.setPhase (c := { c with holder := some k.number }) mem rfl (fun j hj _ => waiting j hj) ?_
      cases hstream : c.stream with
      | none => rfl
      | some l => exact ⟨l, rfl, quiet l hstream⟩
  | opened hin =>
    obtain ⟨k, hk, rfl, -, hholder, -, hwaiting⟩ := (h hrunning).of_isIn hnumbered hin
    exact Slot.setPhase (c := { c with stream := some {} }) hk hholder hwaiting ⟨{}, rfl, rfl, nofun⟩
  | @send k l hin find stream =>
    have mem := (mem_of_find? find).1
    obtain ⟨k', hk', hnumber, hphase, hholder, hfits, hwaiting⟩ := (h hrunning).of_isIn hnumbered hin
    obtain rfl := hnumbered.eq_of_number hk' mem hnumber
    rw [Call.Fits, hphase] at hfits
    obtain ⟨l₁, hl₁, hquiet⟩ := hfits
    obtain rfl : l = l₁ := Option.some.inj (stream.symm.trans hl₁)
    refine Slot.setPhase (c := { c with stream := _ }) mem hholder hwaiting ⟨_, rfl, .asked k'.request ?_ hquiet.frames⟩
    rw [hquiet.requests]
    rfl
  | skip hin stream frames idle =>
    refine (h hrunning).of_stream stream (fun hquiet => ⟨hquiet.requests, fun f hf => ?_⟩) fun n hn => hn.skip frames idle
    exact hquiet.frames f (frames ▸ List.mem_cons_of_mem _ hf)
  | @answered n number l f a rest hin stream frames answer =>
    obtain ⟨k, -, rfl, hphase, hholder, hfits, hwaiting⟩ := (h hrunning).of_isIn hnumbered hin
    rw [Call.Fits, hphase] at hfits
    obtain ⟨l₁, hl₁, hawaits⟩ := hfits
    obtain rfl : l = l₁ := Option.some.inj (stream.symm.trans hl₁)
    refine Slot.finish (c := { c with stream := some { l with frames := rest } }) hholder hwaiting (fun l₁ hl₁ => ?_) _
    cases hl₁
    exact (hawaits.read frames (by rw [answer]; rfl)).2
  | fail e hin =>
    obtain ⟨k, -, rfl, -, hholder, -, hwaiting⟩ := (h hrunning).of_isIn hnumbered hin
    exact Slot.finish (c := { c with stream := none }) hholder hwaiting nofun _

/-! ### Calls and their requests -/

theorem range_fresh (hm : Stepped c m c') : List.range c'.fresh = List.range c.fresh ++ (c.asks m).map (·.1) := by
  cases hm with
  | refuse | begin => exact List.range_succ
  | fail _ _ quiet =>
    rw [quiet.1, List.map_nil, List.append_nil]
    rfl
  | _ => exact (List.append_nil _).symm

/-- A request that goes out is that of a call which was about to send it. -/
theorem sends_cases (hnumbered : c.Numbered) (hm : Stepped c m c') :
    c.sends m = [] ∨ ∃ k ∈ c.calls, k.phase = .sending ∧ c.asks m = [] ∧ c.sends m = [(k.number, k.request)] := by
  cases hm with
  | @send k l hin find =>
    obtain ⟨k', hk', hnumber, hphase⟩ := mem_of_isIn hin
    obtain rfl := hnumbered.eq_of_number hk' (mem_of_find? find).1 hnumber
    exact .inr ⟨k', hk', hphase, rfl, sends_eq find⟩
  | fail _ _ quiet => exact .inl quiet.2
  | _ => exact .inl rfl

/-- Where the calls under way come from. A call that does not wait for its answer has not sent its request. -/
theorem mem_calls_step (hnumbered : c.Numbered) (hm : Stepped c m c') (hk : k ∈ c'.calls) :
    (k.number, k.request) ∈ c.asks m ∨ ∃ j ∈ c.calls, j.number = k.number ∧ j.request = k.request ∧
      (k.phase ≠ .receiving → j.phase ≠ .receiving ∧ j.number ∉ (c.sends m).map (·.1)) := by
  -- A move that sends nothing and changes no phase leaves a call as it was.
  have hsame : ∀ {calls : List Call}, c.sends m = [] → (∀ j ∈ calls, j ∈ c.calls) → k ∈ calls →
      ∃ j ∈ c.calls, j.number = k.number ∧ j.request = k.request ∧
        (k.phase ≠ .receiving → j.phase ≠ .receiving ∧ j.number ∉ (c.sends m).map (·.1)) := by
    intro calls hsends hcalls hk
    refine ⟨k, hcalls k hk, rfl, rfl, fun hphase => ⟨hphase, ?_⟩⟩
    rw [hsends]
    exact List.not_mem_nil
  have hfilter : ∀ n, ∀ j ∈ c.calls.filter (·.number ≠ n), j ∈ c.calls := fun n j hj => List.mem_of_mem_filter hj
  cases hm with
  | refuse => exact .inr (hsame rfl (hfilter _) hk)
  | begin =>
    rcases List.mem_append.mp hk with hk | hk
    · exact .inr (hsame rfl (fun _ hj => hj) hk)
    · exact .inl (List.mem_singleton.mp hk ▸ List.mem_singleton_self _)
  | @acquire k₀ mem waiting =>
    obtain ⟨j, hj, hnumber, hrequest, hphase⟩ := mem_calls_setPhase hk
    refine .inr ⟨j, hj, hnumber, hrequest, fun hne => ⟨?_, List.not_mem_nil⟩⟩
    rcases hphase with ⟨heq, -⟩ | ⟨-, heq⟩
    · rw [hnumbered.eq_of_number hj mem heq, waiting]
      nofun
    · exact heq ▸ hne
  | opened hin =>
    obtain ⟨j, hj, hnumber, hrequest, hphase⟩ := mem_calls_setPhase hk
    obtain ⟨k₀, hk₀, rfl, hopening⟩ := mem_of_isIn hin
    refine .inr ⟨j, hj, hnumber, hrequest, fun hne => ⟨?_, List.not_mem_nil⟩⟩
    rcases hphase with ⟨heq, -⟩ | ⟨-, heq⟩
    · rw [hnumbered.eq_of_number hj hk₀ heq, hopening]
      nofun
    · exact heq ▸ hne
  | @send k₀ l _ find =>
    obtain ⟨j, hj, hnumber, hrequest, hphase⟩ := mem_calls_setPhase hk
    refine .inr ⟨j, hj, hnumber, hrequest, fun hne => ?_⟩
    rcases hphase with ⟨-, heq⟩ | ⟨hother, heq⟩
    · exact absurd heq hne
    · refine ⟨heq ▸ hne, ?_⟩
      rw [sends_eq find]
      exact fun hmem => hother (List.mem_singleton.mp hmem)
  | skip | stop => exact .inr (hsame rfl (fun _ hj => hj) hk)
  | answered | abort => exact .inr (hsame rfl (hfilter _) hk)
  | fail _ _ quiet => exact .inr (hsame quiet.2 (hfilter _) hk)

theorem mem_frames_step (hm : Stepped c m c') {l' : Link} (hl' : c'.stream = some l') {f : Nat × Frame}
    (hf : f ∈ l'.frames) : ∃ l, c.stream = some l ∧ f ∈ l.frames := by
  cases hm with
  | refuse | begin | acquire => exact ⟨l', hl', hf⟩
  | opened => cases hl'; cases hf
  | send _ _ stream => cases hl'; exact ⟨_, stream, hf⟩
  | skip _ stream frames | answered _ stream frames =>
    cases hl'
    exact ⟨_, stream, frames ▸ List.mem_cons_of_mem _ hf⟩
  | fail => cases hl'
  | stop =>
    simp only at hl'
    split at hl'
    · cases hl'
    · exact ⟨l', hl', hf⟩
  | abort _ _ kept =>
    rcases kept with rfl | rfl
    · exact ⟨l', hl', hf⟩
    · cases hl'

theorem outcomes_step (hm : Stepped c m c') : c.outcomes ⊆ c'.outcomes := by
  cases hm with
  | refuse | answered | fail | abort => exact List.subset_append_left _ _
  | _ => exact List.Subset.refl _

/-- A stopped client stays so, and sends nothing. -/
theorem stopped_step (hm : Stepped c m c') (hstopped : c.stopped = true) : c'.stopped = true ∧ c.sends m = [] := by
  have hnot : ∀ {n : Nat} {phase : CallPhase}, c.isIn n phase ≠ true := by
    intro n phase hin
    rw [isIn_eq_true, hstopped] at hin
    exact nomatch hin.1
  cases hm with
  | begin _ running | acquire _ _ running => exact absurd (hstopped.symm.trans running) nofun
  | opened hin | send hin | skip hin | answered hin | fail _ hin => exact absurd hin hnot
  | refuse | abort => exact ⟨hstopped, rfl⟩
  | stop => exact ⟨rfl, rfl⟩

end Client
end Intendant.Plugin
