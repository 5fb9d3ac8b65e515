import Switchboard.Proofs.Routing.Passage

/-!
# Queues that may be full

A connection takes as many frames as it has room for, and none once it is closed: `Mailbox.room` is
that number, and `Mailbox.accept` what comes of frames that are sent. Whoever sends does not have to
ask whether there was room, since neither what is sent to one connection nor that it was refused
touches anything else (`ends_write`, `ends_routeForwarded`).

`Ends` says of a part of the routing of a task that it comes to its end in some state, whether it
fails or not. `runs_forEach` is the rule for loops over targets: a part that fails for one of them
goes on with the next.
-/

namespace Switchboard

namespace Mailbox

/-- The number of frames that a connection takes. -/
def room (b : Mailbox) : Nat :=
  if b.connection.isClosed = false ∧ b.connection.outbound.intake = .listening then
    b.connection.outbound.capacity - b.frames.length
  else 0

/-- Sends frames one after another. -/
def accept (b : Mailbox) (frames : List Bytes) : Mailbox := b.add (frames.take b.room)

variable {b : Mailbox} {frames : List Bytes}

/-- Frames that a connection has taken are room that it has no more. -/
theorem room_add (b : Mailbox) (frames : List Bytes) :
    (b.add frames).room = b.room - frames.length := by
  simp only [room, add, List.length_append]
  split
  · omega
  · omega

@[simp] theorem accept_nil (b : Mailbox) : b.accept [] = b := by
  rw [accept, List.take_nil]
  exact Mailbox.ext rfl (List.append_nil _)

/-- A connection without room takes nothing. -/
theorem accept_of_full (h : b.room = 0) (frames : List Bytes) : b.accept frames = b := by
  rw [accept, h, List.take_zero]
  exact Mailbox.ext rfl (List.append_nil _)

/-- A connection with room for all frames takes all of them. -/
theorem accept_of_room (h : frames.length ≤ b.room) : b.accept frames = b.add frames := by
  rw [accept, List.take_of_length_le h]

/-- Frames may be sent in one go or in two: what is refused in the first is refused in both. -/
theorem accept_accept (b : Mailbox) (frames frames' : List Bytes) :
    (b.accept frames).accept frames' = b.accept (frames ++ frames') := by
  -- what the first frames leave of the room is what the others find
  have hroom : (b.accept frames).room = b.room - frames.length := by
    rw [accept, room_add, List.length_take]
    omega
  rw [accept, hroom, accept, accept, List.take_append]
  exact Mailbox.ext rfl (List.append_assoc ..)

end Mailbox

namespace View

/-- Sends frames to a session. -/
def give (v : View) (session : Session) (frames : List Bytes) : View :=
  { v with mail := fun τ => if τ = session then (v.mail τ).map (·.accept frames) else v.mail τ }

/-- Whoever is kept under a session has it. -/
def KeepsAt (v : View) (session : Session) : Prop :=
  ∀ b, v.mail session = some b → b.connection.session = session

variable {v : View} {session : Session}

/-- Sending to a connection without room changes nothing. -/
theorem give_of_full (h : ∀ b, v.mail session = some b → b.room = 0) (frames : List Bytes) :
    v.give session frames = v := by
  refine View.ext rfl rfl (funext fun τ => ?_) rfl rfl
  show (if τ = session then (v.mail τ).map (·.accept frames) else v.mail τ) = v.mail τ
  by_cases hτ : τ = session
  · subst hτ
    rw [if_pos rfl]
    cases hb : v.mail τ with
    | none => rfl
    | some b => exact congrArg some (Mailbox.accept_of_full (h b hb) frames)
  · rw [if_neg hτ]

@[simp] theorem give_nil (v : View) (session : Session) : v.give session [] = v := by
  refine View.ext rfl rfl (funext fun τ => ?_) rfl rfl
  show (if τ = session then (v.mail τ).map (·.accept []) else v.mail τ) = v.mail τ
  split
  · cases v.mail τ with
    | none => rfl
    | some b => exact congrArg some (b.accept_nil)
  · rfl

/-- Frames that are sent to a session in two goes are sent to it. -/
theorem give_give (v : View) (session : Session) (frames frames' : List Bytes) :
    (v.give session frames).give session frames' = v.give session (frames ++ frames') := by
  refine View.ext rfl rfl (funext fun τ => ?_) rfl rfl
  simp only [give]
  split
  · cases v.mail τ with
    | none => rfl
    | some b => exact congrArg some (b.accept_accept frames frames')
  · rfl

theorem KeepsAt.give (h : v.KeepsAt session) (frames : List Bytes) :
    (v.give session frames).KeepsAt session := by
  intro b hb
  have hb : (if session = session then (v.mail session).map (·.accept frames)
      else v.mail session) = some b := hb
  rw [if_pos rfl] at hb
  obtain ⟨b', hb', rfl⟩ := Option.map_eq_some_iff.1 hb
  exact h b' hb'

end View

namespace Exchange

variable {x : Exchange} {session : Session}

/-- A frame that is sent to a connection is taken, or refused for want of room. -/
theorem sendTo_cases (hkey : x.view.KeepsAt session) (frame : Bytes) :
    (∃ y, x.sendTo session frame = (.ok (), y) ∧ y.view = x.view.give session [frame] ∧
      y.assembler? = x.assembler?) ∨
    ∃ fault, x.sendTo session frame = (.error fault, x) ∧
      ∀ b, x.mail session = some b → b.room = 0 := by
  cases hc : x.connection? session with
  | none =>
      refine Or.inr ⟨.transport "no such connection", by rw [sendTo, hc], fun b hb => ?_⟩
      rw [mail, hc] at hb
      cases hb
  | some c =>
      have hmail : x.mail session = some c.mailbox := by
        rw [mail, hc]
        rfl
      -- a refusal, whatever the reason, leaves the exchange as it is
      have hrefused : ∀ fault, c.send frame = .error fault → c.mailbox.room = 0 →
          ∃ fault, x.sendTo session frame = (.error fault, x) ∧
            ∀ b, x.mail session = some b → b.room = 0 := by
        intro fault hsend hroom
        refine ⟨fault, by rw [sendTo, hc]; dsimp only; rw [hsend], fun b hb => ?_⟩
        obtain rfl := Option.some.inj (hmail.symm.trans hb)
        exact hroom
      by_cases hclosed : c.isClosed = true
      · refine Or.inr (hrefused _ (if_pos hclosed) (if_neg ?_))
        rintro ⟨hopen, -⟩
        exact Bool.false_ne_true (hopen.symm.trans hclosed)
      · have hopen : c.isClosed = false := Bool.eq_false_iff.2 hclosed
        by_cases hlistening : c.outbound.intake = .listening
        · have hroom : c.mailbox.room = c.outbound.capacity - c.outbound.items.length :=
            if_pos ⟨hopen, hlistening⟩
          by_cases hfits : c.outbound.items.length < c.outbound.capacity
          · -- the connection is open and has room, so it takes the frame
            have hsession : c.session = session := hkey c.mailbox hmail
            have hpost : x.view.CanPost session 1 :=
              ⟨c.mailbox, hmail, hsession, hopen, hlistening, hfits⟩
            obtain ⟨y, hsend, hview⟩ := view_sendTo hpost frame
            refine Or.inl ⟨y, hsend, ?_, ?_⟩
            · rw [hview, View.post, View.give]
              refine View.ext rfl rfl (funext fun τ => ?_) rfl rfl
              dsimp only
              by_cases hτ : τ = session
              · have hmail' : x.view.mail τ = some c.mailbox := hτ ▸ hmail
                rw [if_pos hτ, if_pos hτ, hmail', Option.map_some, Option.map_some,
                  Mailbox.accept_of_room (by rw [hroom, List.length_singleton]; omega)]
              · rw [if_neg hτ, if_neg hτ]
            · -- queueing a frame leaves the assemblers alone
              rw [sendTo, hc] at hsend
              dsimp only at hsend
              cases hc' : c.send frame with
              | error fault =>
                  rw [hc'] at hsend
                  cases (Prod.mk.inj hsend).1
              | ok c' =>
                  rw [hc'] at hsend
                  obtain rfl := (Prod.mk.inj hsend).2
                  rfl
          · refine Or.inr (hrefused (.queueFull "outbound") ?_ (by omega))
            rw [Connection.send, if_neg hclosed, Queue.offer, if_neg (fun h => h hlistening),
              dif_neg hfits]
        · refine Or.inr (hrefused (.transport s!"write loop of {c.identity} has exited") ?_
            (if_neg fun h => hlistening h.2))
          rw [Connection.send, if_neg hclosed, Queue.offer, if_pos hlistening]

end Exchange

namespace Routing

variable {α β : Type} {s s' : Errand} {a : α} {P Q : Errand → Prop}

/-- A part comes to its end, whether it fails or not, and it does not break off. -/
def Ends (part : Routing α) (s : Errand) (P : Errand → Prop) : Prop :=
  ∃ result s', part.run.run s = (result, s') ∧ result ≠ .error .crash ∧ P s'

theorem Ends.of_runs {part : Routing α} (h : Runs part s a s') (hs' : P s') : Ends part s P := by
  refine ⟨.ok a, s', h, ?_, hs'⟩
  rintro ⟨⟩

/-- A part that fails fails whatever was to come after it. -/
theorem run_bind_of_error {part : Routing α} {stop : Stop}
    (h : part.run.run s = (.error stop, s')) (next : α → Routing β) :
    (part >>= next).run.run s = (.error stop, s') := by
  change ExceptT.bindCont next (part.run.run s).1 (part.run.run s).2 = _
  rw [h]
  rfl

/-- A part that fails comes to its end as well. -/
theorem Ends.of_fault {part : Routing α} {fault : Fault}
    (h : part.run.run s = (.error (.fault fault), s')) (hs' : P s') : Ends part s P := by
  refine ⟨.error (.fault fault), s', h, ?_, hs'⟩
  rintro ⟨⟩

theorem run_get_bind (next : Errand → Routing β) (s : Errand) :
    (get >>= next).run.run s = (next s).run.run s := rfl

theorem run_step_of_error {ε : Type} (wrap : ε → Stop) {f : Exchange → Except ε α × Exchange}
    {error : ε} {x : Exchange} (h : f s.exchange = (.error error, x)) :
    (step wrap f).run.run s = (.error (wrap error), { s with exchange := x }) := by
  refine (run_get_bind _ s).trans ?_
  rw [h]
  rfl

/-- After a part that succeeds, it is the next one that has to come to its end. -/
theorem Runs.bind_ends {part : Routing α} {next : α → Routing β} (h : Runs part s a s')
    (h' : Ends (next a) s' P) : Ends (part >>= next) s P := by
  obtain ⟨result, s'', hrun, hresult, hs''⟩ := h'
  refine ⟨result, s'', ?_, hresult, hs''⟩
  change ExceptT.bindCont next (part.run.run s).1 (part.run.run s).2 = _
  rw [h]
  exact hrun

theorem Ends.get_bind {next : Errand → Routing β} (h : Ends (next s) s P) :
    Ends (get >>= next) s P := Runs.bind_ends rfl h

theorem Ends.set_bind {next : PUnit → Routing β} (h : Ends (next ()) s' P) :
    Ends (set s' >>= next) s P := Runs.bind_ends rfl h

theorem Ends.pure_bind {next : α → Routing β} (h : Ends (next a) s P) :
    Ends (pure a >>= next) s P := Runs.bind_ends rfl h

theorem Ends.exchange_bind {next : Exchange → Routing β} (h : Ends (next s.exchange) s P) :
    Ends (exchange >>= next) s P := Runs.bind_ends rfl h

theorem Ends.freshId_bind {next : String → Routing β}
    (h : Ends (next (Exchange.formatId s.exchange.issued))
      { s with exchange := s.exchange.freshId.2 } P) :
    Ends (freshId >>= next) s P := Runs.bind_ends rfl h

/-- What a failure leaves behind holds as well if the next part keeps it. -/
theorem Ends.bind {part : Routing α} {next : α → Routing β} (h : Ends part s P)
    (hnext : ∀ a s', P s' → Ends (next a) s' P) : Ends (part >>= next) s P := by
  obtain ⟨result, s', hrun, hresult, hs'⟩ := h
  cases result with
  | ok a => exact Runs.bind_ends hrun (hnext a s' hs')
  | error stop =>
      refine ⟨.error stop, s', run_bind_of_error hrun next, ?_, hs'⟩
      rintro ⟨⟩
      exact hresult rfl

/-- What runs alike ends alike. -/
theorem Ends.congr {part part' : Routing α} (h : Ends part' s' P)
    (heq : part.run.run s = part'.run.run s') : Ends part s P := by
  obtain ⟨result, s'', hrun, hresult, hs''⟩ := h
  exact ⟨result, s'', heq.trans hrun, hresult, hs''⟩

/-- What holds in the end may be said in weaker words. -/
theorem Ends.mono {part : Routing α} (h : Ends part s P) (hP : ∀ s', P s' → Q s') :
    Ends part s Q := by
  obtain ⟨result, s', hrun, hresult, hs'⟩ := h
  exact ⟨result, s', hrun, hresult, hP s' hs'⟩

/-- A part that comes to its end can be attempted. -/
theorem Ends.attempt {part : Routing Unit} (h : Ends part s P) :
    ∃ s', Runs (Routing.attempt part) s () s' ∧ P s' := by
  obtain ⟨result, s', hrun, hresult, hs'⟩ := h
  refine ⟨s', ?_, hs'⟩
  have hrun : (part : StateM Errand (Except Stop Unit)) s = (result, s') := hrun
  simp only [Runs, Routing.attempt, tryCatch, tryCatchThe, MonadExceptOf.tryCatch,
    ExceptT.tryCatch, ExceptT.mk, ExceptT.run, StateT.run, Bind.bind, StateT.bind]
  rw [hrun]
  cases result with
  | ok a => rfl
  | error stop =>
      cases stop with
      | fault fault => rfl
      -- an attempt catches a failure, and a part that comes to its end does not break off
      | crash => exact absurd rfl hresult

/-- **The rule for loops.** What holds of the targets that were done, and is kept by every other one
whether it fails or not, holds of all targets in the end. -/
theorem runs_forEach {part : String → Routing Unit} {I : List String → Errand → Prop}
    {targets : List String} (h : I [] s)
    (hstep : ∀ done target rest s, targets = done ++ target :: rest → I done s →
      Ends (part target) s (I (done ++ [target]))) :
    ∃ s', Runs (forEach part targets) s () s' ∧ I targets s' := by
  -- on the targets that are still to be done, whatever was done before
  have hrest : ∀ rest done s, targets = done ++ rest → I done s →
      ∃ s', Runs (forEach part rest) s () s' ∧ I targets s' := by
    intro rest
    induction rest with
    | nil =>
        intro done s htargets hdone
        rw [List.append_nil] at htargets
        exact ⟨s, rfl, htargets ▸ hdone⟩
    | cons target rest ih =>
        intro done s htargets hdone
        obtain ⟨s', hattempt, hs'⟩ := (hstep done target rest s htargets hdone).attempt
        obtain ⟨s'', hforEach, hs''⟩ := ih (done ++ [target]) s'
          (by rw [htargets, List.append_assoc]; rfl) hs'
        exact ⟨s'', hattempt.bind hforEach, hs''⟩
  exact hrest targets [] s rfl h

/-! ## Sending -/

/-- Frames were sent to a session, and nothing else was done. -/
structure Gave (s : Errand) (session : Session) (frames : List Bytes) (s' : Errand) : Prop where
  view : s'.exchange.view = s.exchange.view.give session frames
  assembler? : s'.exchange.assembler? = s.exchange.assembler?
  copy : s'.copy = s.copy
  given : s'.given = s.given

variable {session : Session}

theorem gave_nil (s : Errand) (session : Session) : Gave s session [] s :=
  ⟨(View.give_nil ..).symm, rfl, rfl, rfl⟩

/-- Frames that nobody has room for were sent too. -/
theorem gave_of_full (h : ∀ b, s.exchange.mail session = some b → b.room = 0)
    (frames : List Bytes) : Gave s session frames s :=
  ⟨(View.give_of_full h frames).symm, rfl, rfl, rfl⟩

/-- What was counted does not matter. -/
theorem Gave.mapCounters {frames : List Bytes} (h : Gave s session frames s') (shard : Nat)
    (f : Counters → Counters) :
    Gave s session frames { s' with exchange := s'.exchange.mapCounters shard f } :=
  ⟨(Exchange.view_mapCounters ..).trans h.view,
    (Exchange.assembler?_mapCounters ..).trans h.assembler?, h.copy, h.given⟩

/-- Frames are sent up to the first that is refused, and from then on there is no room for any. -/
theorem ends_sendAll (shard : Nat) (hkey : s.exchange.view.KeepsAt session)
    (frames : List Bytes) : Ends (sendAll shard session frames) s (Gave s session frames) := by
  induction frames generalizing s with
  | nil => exact .of_runs (a := ()) rfl (gave_nil s session)
  | cons frame frames ih =>
      refine Ends.get_bind ?_
      rcases Exchange.sendTo_cases hkey frame with
        ⟨y, hsend, hview, hassembler⟩ | ⟨fault, hsend, hfull⟩
      · rw [hsend]
        have hkey' : y.view.KeepsAt session := hview ▸ hkey.give [frame]
        refine Ends.set_bind ?_
        refine (ih (s := { s with exchange := y }) hkey').mono fun s' hs' => ?_
        refine ⟨?_, hs'.assembler?.trans hassembler, hs'.copy, hs'.given⟩
        rw [hs'.view, hview, View.give_give]
        rfl
      · -- the frame is refused for want of room, and so would be the others
        rw [hsend]
        exact .set_bind (.of_fault rfl ((gave_of_full hfull _).mapCounters shard _))

/-- **A connection takes of a message what it has room for.** -/
theorem ends_write (shard : Nat) (hkey : s.exchange.view.KeepsAt session)
    (frames : List Bytes) : Ends (write shard session frames) s (Gave s session frames) := by
  refine (ends_sendAll shard hkey frames).bind fun _ s' hs' => ?_
  exact .of_runs (a := ()) rfl (hs'.mapCounters shard _)

end Routing

namespace Exchange

variable {x : Exchange} {shard : Nat} {task : Task} {P : Errand → Prop}

/-- What holds when the routing of a task has come to its end holds of the exchange then. -/
theorem routeTask_of_ends (h : Routing.Ends (Routing.route shard task)
    { exchange := x, copy := .unresolved } P) : ∃ s, P s ∧ x.routeTask shard task = s.exchange := by
  obtain ⟨result, s, hrun, hresult, hs⟩ := h
  refine ⟨s, hs, ?_⟩
  rw [routeTask, hrun]
  cases result with
  | ok a => rfl
  | error stop =>
      cases stop with
      | fault fault => rfl
      | crash => exact absurd rfl hresult

end Exchange

end Switchboard
