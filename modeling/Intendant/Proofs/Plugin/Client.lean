import Intendant.Plugin.Client

/-! # A call of a client

The moves of a call that is answered, one after the other, from a client at rest to the same client at rest again. -/

namespace Intendant.Plugin.Client

/-- A client that no call uses, whose stream carries nothing, and whose next number is a new one. -/
structure Resting (c : Client) : Prop where
  running : c.stopped = false
  free : c.holder = none
  idle : c.calls = []
  stream : c.stream = none ∨ c.stream = some {}
  fresh : ∀ o ∈ c.outcomes, o.1 < c.fresh

/-- The client when its next call has begun. -/
def begun (c : Client) (request : String) : Client :=
  { c with calls := [⟨c.fresh, request, .waiting⟩], fresh := c.fresh + 1 }

/-- The client while its next call uses the stream. -/
def during (c : Client) (request : String) (phase : CallPhase) (l : Option Link) : Client :=
  { c with holder := some c.fresh, stream := l, calls := [⟨c.fresh, request, phase⟩], fresh := c.fresh + 1 }

/-- The client when its next call has been answered. -/
def after (c : Client) (a : NextStateAnswer) : Client :=
  { c with stream := some {}, fresh := c.fresh + 1, outcomes := c.outcomes ++ [(c.fresh, .answered c.fresh a)] }

section
variable {c : Client} {request text : String} {a : NextStateAnswer} {l : Link} {phase : CallPhase}

theorem isIn_during (h : c.Resting) (phase' : CallPhase) :
    (c.during request phase (some l)).isIn c.fresh phase' = decide (phase = phase') := by
  simp [isIn, during, find?, h.running]

theorem resting_new (info : Info) (callTimeoutMs : Nat) :
    ({ info := info, callTimeoutMs := callTimeoutMs } : Client).Resting where
  running := rfl
  free := rfl
  idle := rfl
  stream := .inl rfl
  fresh _ ho := absurd ho List.not_mem_nil

theorem resting_after (h : c.Resting) : (c.after a).Resting where
  running := h.running
  free := h.free
  idle := h.idle
  stream := .inr rfl
  fresh o ho := by
    rcases List.mem_append.mp ho with ho | ho
    · exact Nat.lt_succ_of_lt (h.fresh o ho)
    · rw [List.mem_singleton.mp ho]
      exact Nat.lt_succ_self _

variable [Json.Reading]

theorem step_call (h : c.Resting) :
    c.step? (.call request) = some (c.begun request) := by
  simp [step?, begun, h.running, h.idle]

theorem step_acquire (h : c.Resting) :
    (c.begun request).step? (.acquire c.fresh) =
      some (c.during request (if c.stream.isNone then .opening else .sending) c.stream) := by
  simp [step?, begun, h.running, h.free, find?, setPhase, during]

theorem step_opened_none (h : c.Resting) :
    (c.during request .opening none).step? (.opened c.fresh none) = some (c.during request .sending (some {})) := by
  simp [step?, isIn, find?, setPhase, during, h.running]

theorem step_opened_some (h : c.Resting) :
    (c.during request .sending (some l)).step? (.opened c.fresh none) = none := by
  simp [step?, isIn_during h]

theorem step_send (h : c.Resting) :
    (c.during request .sending (some {})).step? (.send c.fresh) =
      some (c.during request .receiving (some { requests := [(c.fresh, request)] })) := by
  rw [step?, isIn_during h, decide_eq_true rfl]
  simp [during, find?, setPhase]

theorem step_serve (text : String) :
    (c.during request .receiving (some { requests := [(c.fresh, request)] })).step? (.serve [.text text] false) =
      some (c.during request .receiving (some { frames := [(c.fresh, .text text)] })) := by
  simp [step?, during]

theorem step_receive (h : c.Resting) (hread : Wire.decode? text = some a) :
    (c.during request .receiving (some { frames := [(c.fresh, .text text)] })).step? (.receive c.fresh) =
      some (c.after a) := by
  rw [step?, isIn_during h, decide_eq_true rfl]
  simp [during, take?, answerIn?, hread, finish, after, h.free, h.idle]

theorem step_abort (h : c.Resting) : (c.after a).step? (.abort c.fresh) = none := by
  simp [step?, after, h.running]

end
end Intendant.Plugin.Client
