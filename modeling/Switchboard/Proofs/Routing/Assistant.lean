import Switchboard.Proofs.Fragment.Reassembly
import Switchboard.Proofs.Routing.Reaching

/-!
# The assistant

A message for the assistant is gathered from its parts, in whatever order they come in. The last of
them makes a prompt, the assistant is asked, and its answer comes in at the same shard as a message
for the sender. So an exchange goes through three phases (`Attending`), and whatever is done in
between keeps it on its way (`attending_act`). Nobody but the sender gets anything of it, the
assistant is asked once, and everything comes to rest (`staysBetween_of_course`).

The sender is taken from the message as it stands. That of a message without a sender makes the
answer one for everybody, and that of a message in the assistant's own name makes it another
question (`not_staysBetween`).
-/

namespace Switchboard

namespace Exchange

/-- The exchange with other prompts that wait for the assistant. -/
def prompting (x : Exchange) (prompts : List Prompt) : Exchange :=
  x.mapPool fun p => { p with prompts }

/-- Nothing is on its way, and the assistant has nothing to answer. -/
def Quiet (x : Exchange) : Prop := x.Settled ∧ x.pool.prompts = []

section Routing

variable {x y : Exchange} {shard : Nat} {t : Shard} {e message : Envelope} {raw : Bytes}

open Routing

/-- What a shard does with an envelope for the assistant. -/
structure Noted (x : Exchange) (shard : Nat) (a : Assembler) (e : Envelope) (y : Exchange) :
    Prop where
  view : y.view
    = (x.prompting (x.pool.prompts ++ (a.joins? x.now e).toList.map (Prompt.mk shard))).view
  joined : y.assembler? shard = some (a.receive x.now e).2

theorem view_prompting (h : y.view = x.view) (prompts : List Prompt) :
    (y.prompting prompts).view = (x.prompting prompts).view :=
  congrArg (fun v : View => { v with bare := v.bare.prompting prompts }) h

theorem noted_prompting {a : Assembler} {prompts : List Prompt} (hview : y.view = x.view)
    (hjoined : y.assembler? shard = some (a.receive x.now e).2)
    (hprompts : x.pool.prompts ++ (a.joins? x.now e).toList.map (Prompt.mk shard) = prompts) :
    x.Noted shard a e (y.prompting prompts) := by
  subst hprompts
  exact ⟨view_prompting hview _, hjoined⟩

/-- An envelope that is no fragment is a prompt. -/
theorem ends_routeToAssistant_of_whole (ht : x.shard? shard = some t)
    (hwhole : e.isFragment = false) :
    Ends (routeToAssistant shard e) { exchange := x, copy := .unresolved }
      fun s => x.Noted shard t.assembler e s.exchange := by
  have hassembler : x.assembler? shard = some t.assembler := by
    rw [assembler?, ht]
    rfl
  have hreceive : t.assembler.receive x.now e = (.ok (.complete e), t.assembler) := by
    rw [Assembler.receive, hwhole]
    rfl
  rw [routeToAssistant, hwhole]
  refine .of_runs (a := ()) rfl (noted_prompting rfl ?_ ?_)
  · rw [hreceive]
    exact hassembler
  · rw [Assembler.joins?, hreceive]
    rfl

/-- A fragment is joined with those that came before, and what it completes is a prompt. -/
theorem ends_routeToAssistant_of_fragment (ht : x.shard? shard = some t)
    (hfragment : e.isFragment = true) :
    Ends (routeToAssistant shard e) { exchange := x, copy := .unresolved }
      fun s => x.Noted shard t.assembler e s.exchange := by
  rw [routeToAssistant, if_pos hfragment]
  cases hreceive : t.assembler.receive x.now e with
  | mk result a =>
      have hlimits : a.limits = t.assembler.limits := by
        have h := t.assembler.limits_receive x.now e
        rwa [hreceive] at h
      have hstored := stored_setAssembler (s := { exchange := x, copy := .unresolved }) ht
        hlimits .unresolved []
      obtain ⟨z, hz⟩ : ∃ z, z = x.mapShard shard fun t => { t with assembler := a } := ⟨_, rfl⟩
      have hview : z.view = x.view := hz ▸ hstored.view
      have hjoined : z.assembler? shard = some (t.assembler.receive x.now e).2 := by
        rw [hz, hreceive]
        exact congrArg Stock.assembler hstored.stock
      have hsame : z.pool.prompts = x.pool.prompts := prompts_of_bare (bare_of_view hview)
      cases result with
      | error fault =>
          have hassemble := run_assemble_of_error
            (s := { exchange := x, copy := .unresolved }) ht hreceive
          rw [← hz] at hassemble
          refine .of_fault (run_bind_of_error hassemble _) (noted_prompting hview hjoined ?_)
          rw [Assembler.joins?, hreceive]
          exact (List.append_nil _).trans hsame.symm
      | ok outcome =>
          have hassemble := runs_assemble (s := { exchange := x, copy := .unresolved }) ht
            hreceive
          rw [← hz] at hassemble
          refine hassemble.bind_ends ?_
          cases outcome with
          | pending received total =>
              refine .of_runs (a := ()) rfl (noted_prompting hview hjoined ?_)
              rw [Assembler.joins?, hreceive]
              exact (List.append_nil _).trans hsame.symm
          | complete message =>
              refine .of_runs (a := ()) rfl (noted_prompting hview hjoined ?_)
              rw [Assembler.joins?, hreceive, hsame]
              rfl

/-- **An envelope for the assistant** is taken in at the shard, and what it completes is a
prompt. -/
theorem noted_routeTask (ht : x.shard? shard = some t) (hrecipient : e.recipient ≠ "")
    (hkind : e.deliveryKind = .direct) (hassistant : x.services.isAssistant e.recipient = true)
    (raw : Bytes) : x.Noted shard t.assembler e (x.routeTask shard (inbound e raw)) := by
  have hends : Ends (route shard (inbound e raw)) { exchange := x, copy := .unresolved }
      fun s => x.Noted shard t.assembler e s.exchange := by
    rw [inbound, route_inbound hrecipient hkind]
    refine Ends.exchange_bind ?_
    rw [if_pos hassistant]
    cases hfragment : e.isFragment with
    | false => exact ends_routeToAssistant_of_whole ht hfragment
    | true => exact ends_routeToAssistant_of_fragment ht hfragment
  obtain ⟨s, hs, hroute⟩ := routeTask_of_ends hends
  rw [hroute]
  exact hs

end Routing

/-! ## The answer -/

/-- The answer of an assistant to the sender of a message. -/
def answerTo (x : Exchange) (a : Assistant) (message : Envelope) (text : String) : Envelope :=
  { Envelope.direct a.identity message.sender .text text x.timestamp with
    messageId := formatId x.issued }

/-- The prompts that the assistant is asked by an action. -/
def asking (x : Exchange) : Action → List Prompt
  | .answer => x.pool.prompts.head?.toList
  | _ => []

/-- The prompts that the assistant is asked in a history. -/
def askingAll : Exchange → List Action → List Prompt
  | _, [] => []
  | x, action :: more => x.asking action ++ (x.act action).askingAll more

section Answer

variable {x y : Exchange} {shard : Nat} {a : Assistant} {message : Envelope} {text : String}

theorem asking_of_nil (h : x.pool.prompts = []) (action : Action) : x.asking action = [] := by
  cases action with
  | answer => exact congrArg (fun prompts : List Prompt => prompts.head?.toList) h
  | _ => rfl

theorem isAssistant_iff (ha : x.services.assistant = some a) (identity : String) :
    x.services.isAssistant identity = true ↔ a.identity = identity := by
  rw [Services.isAssistant, ha]
  exact decide_eq_true_iff

theorem timestamp_of_view (h : y.view = x.view) : y.timestamp = x.timestamp := by
  rw [timestamp, timestamp, now_of_bare (bare_of_view h)]

theorem answerTo_of_view (h : y.view = x.view) (a : Assistant) (message : Envelope)
    (text : String) : y.answerTo a message text = x.answerTo a message text := by
  have hissued : y.issued = x.issued := issued_of_view h
  rw [answerTo, answerTo, timestamp_of_view h, hissued]

/-- The answer is queued as a message that comes in at the shard of the prompt. -/
theorem answer_of_prompt (hwell : x.services.outages = []) (ha : x.services.assistant = some a)
    (hprompts : x.pool.prompts = [⟨shard, message⟩]) (htext : a.answer message.content = .ok text) :
    x.answer = ((x.prompting []).freshId.2.submit shard
      (inbound (x.answerTo a message text) (x.answerTo a message text).encode)).2 := by
  have hwell' : (x.prompting []).services.outages = [] := hwell
  -- the prompt is taken off before the assistant is called, whose service is not out
  have hattempt : (x.mapPool fun p => { p with prompts := [] }).attempt .complete
      = (.ok (), x.prompting []) := by
    show (x.prompting []).attempt .complete = _
    rw [attempt, Services.attempt_of_well hwell']
  have ha' : (x.mapPool fun p => { p with prompts := [] }).services.assistant = some a := ha
  rw [answer, hprompts]
  dsimp only
  rw [ha', hattempt]
  dsimp only
  rw [htext]
  rfl

end Answer

/-! ## A message in its parts -/

/-- A message to the assistant from somebody else. -/
structure ForAssistant (x : Exchange) (a : Assistant) (message : Envelope) : Prop where
  assistant : x.services.assistant = some a
  named : a.identity ≠ ""
  recipient : message.recipient = a.identity
  kind : message.deliveryKind = .direct
  /-- An answer to nobody would go to everybody. -/
  sender : message.sender ≠ ""
  /-- An answer to the assistant would be a prompt. -/
  apart : message.sender ≠ a.identity

/-- What may happen while the parts of a message come in at a shard, each of them once: those that
were taken in so far, and the prompts that the assistant was asked. -/
inductive Course (x : Exchange) (shard : Nat) (parts : List Envelope) :
    List Envelope → List Prompt → Exchange → Prop
  | start : Course x shard parts [] [] x
  | taken {accepted : List Envelope} {asked : List Prompt} {y z : Exchange} {f : Envelope}
      {raw : Bytes} (h : Course x shard parts accepted asked y)
      (hand : y.enqueueEnvelope shard f raw = (.ok (), z))
      (once : (accepted ++ [f]).Subperm parts) : Course x shard parts (accepted ++ [f]) asked z
  | refused {accepted : List Envelope} {asked : List Prompt} {y z : Exchange} {f : Envelope}
      {raw : Bytes} {fault : Fault} (h : Course x shard parts accepted asked y)
      (hand : y.enqueueEnvelope shard f raw = (.error fault, z)) :
      Course x shard parts accepted asked z
  | act {accepted : List Envelope} {asked : List Prompt} {y : Exchange} {action : Action}
      (h : Course x shard parts accepted asked y) (serves : action.serves = true) :
      Course x shard parts accepted (asked ++ y.asking action) (y.act action)

theorem Course.subperm {x y : Exchange} {shard : Nat} {parts accepted : List Envelope}
    {asked : List Prompt} (h : Course x shard parts accepted asked y) : accepted.Subperm parts := by
  induction h with
  | start => exact List.nil_subperm
  | taken h hand once ih => exact once
  | refused h hand ih => exact ih
  | act h serves ih => exact ih

theorem Course.run {x y : Exchange} {shard : Nat} {parts accepted : List Envelope}
    {asked : List Prompt} (h : x.Course shard parts accepted asked y) {more : List Action}
    (hmore : ∀ action ∈ more, action.serves = true) :
    x.Course shard parts accepted (asked ++ y.askingAll more) (y.run more) := by
  induction more generalizing asked y with
  | nil => exact (List.append_nil asked).symm ▸ h
  | cons action more ih =>
      obtain ⟨haction, hmore⟩ := List.forall_mem_cons.1 hmore
      rw [askingAll, ← List.append_assoc]
      exact ih (h.act haction) hmore

/-! ## Before the assistant is asked -/

/-- Some parts of a message were joined at a shard, and the others that were taken in wait there. -/
structure Gathering (x : Exchange) (shard : Nat) (b : Assembler) (accepted done : List Envelope)
    (t : Traffic) (y : Exchange) : Prop where
  view : y.view = x.view.setTraffic shard t
  joined : y.assembler? shard = some (b.joining x.now done)
  forward : t.forward = []
  tasks : ∀ task ∈ t.inHand ++ t.work, ∃ e raw, task = inbound e raw
  parts : (done ++ (t.inHand ++ t.work).map Task.envelope).Perm accepted

section Gathering

variable {x y z : Exchange} {shard slot : Nat} {a : Assistant} {b : Assembler}
  {message f : Envelope} {raw : Bytes} {accepted done parts : List Envelope} {t : Traffic}
  {task : Task} {rest : List Task}

theorem Gathering.bare (h : x.Gathering shard b accepted done t y) : y.bare = x.bare :=
  bare_of_view h.view

theorem Gathering.traffic (h : x.Gathering shard b accepted done t y) :
    y.view.traffic shard = t := by
  rw [h.view, View.traffic_setTraffic]

/-- One more part is taken in. -/
theorem gathering_taken (h : x.Gathering shard b accepted done t y)
    (hand : y.enqueueEnvelope shard f raw = (.ok (), z)) :
    x.Gathering shard b (accepted ++ [f]) done { t with work := t.work ++ [inbound f raw] } z := by
  have hsubmit : y.submit shard (inbound f raw) = (.ok (), z) := hand
  rcases y.submit_cases shard (inbound f raw) with ⟨z', hz, -, hview⟩ | ⟨fault, z', hz, -, -⟩
  · obtain rfl := (Prod.mk.inj (hsubmit.symm.trans hz)).2
    have hassembler := y.assembler?_submit shard (inbound f raw)
    rw [hsubmit] at hassembler
    refine ⟨?_, (congrFun hassembler shard).trans h.joined, h.forward, fun task hmem => ?_, ?_⟩
    · rw [hview, h.traffic, h.view, View.setTraffic_setTraffic]
    · rw [← List.append_assoc] at hmem
      rcases List.mem_append.1 hmem with hmem | hmem
      · exact h.tasks task hmem
      · exact ⟨f, raw, List.mem_singleton.1 hmem⟩
    · have hmore := h.parts.append_right [f]
      rw [List.append_assoc] at hmore
      rw [← List.append_assoc t.inHand, List.map_append]
      exact hmore
  · -- it was taken in, so it was not refused
    cases (Prod.mk.inj (hsubmit.symm.trans hz)).1

/-- A processor takes a part. -/
theorem gathering_take (h : x.Gathering shard b accepted done t y) (hwork : t.work = task :: rest)
    (hfree : t.inHand.length < y.processors) : x.Gathering shard b accepted done
      { t with work := rest, inHand := t.inHand ++ [task] } (y.take shard) := by
  -- what waits and what is in hand are the same parts as before
  have hsame : t.inHand ++ [task] ++ rest = t.inHand ++ t.work := by
    rw [hwork, List.append_assoc]
    rfl
  have htasks := h.tasks
  have hparts := h.parts
  rw [← hsame] at htasks hparts
  refine ⟨?_, ?_, h.forward, htasks, hparts⟩
  · have hview := view_take (x := y) (by rw [h.traffic]; exact hwork) (by rwa [h.traffic])
    rw [hview, h.traffic, h.view, View.setTraffic_setTraffic]
  · rw [assembler?_take]
    exact h.joined

theorem prompting_self {prompts : List Prompt} (h : y.pool.prompts = prompts) :
    y.prompting prompts = y := by
  subst h
  rfl

/-- A part that is put down has been routed, and the others are still to be. -/
theorem Gathering.parts_putDown (h : x.Gathering shard b accepted done t y)
    (hslot : t.inHand[slot]? = some task) :
    (done ++ [task.envelope] ++ (t.inHand.eraseIdx slot ++ t.work).map Task.envelope).Perm
      accepted := by
  have hput := ((cons_eraseIdx_perm hslot).append_right t.work).map Task.envelope
  rw [List.append_assoc]
  exact (hput.append_left done).trans h.parts

theorem Gathering.view_putDown (h : x.Gathering shard b accepted done t y)
    (hslot : t.inHand[slot]? = some task) : (y.putDown shard slot).view
      = x.view.setTraffic shard { t with inHand := t.inHand.eraseIdx slot } := by
  have hslot' : (y.view.traffic shard).inHand[slot]? = some task := by
    rw [h.traffic]
    exact hslot
  rw [Exchange.view_putDown hslot', h.traffic, h.view, View.setTraffic_setTraffic]

/-- A part goes to the assistant. -/
theorem ForAssistant.addressed (hfor : x.ForAssistant a message) (hcomes : b.Comes message parts)
    (hf : f ∈ parts) : f.recipient ≠ "" ∧ f.deliveryKind = .direct ∧
      x.services.isAssistant f.recipient = true := by
  obtain ⟨hrecipient, hkind⟩ := hcomes.addressed hf
  rw [hrecipient, hfor.recipient]
  exact ⟨hfor.named, hkind.trans hfor.kind, (isAssistant_iff hfor.assistant _).2 rfl⟩

/-- A part that is routed is taken in with those that were joined. -/
theorem noted_finish (hfor : x.ForAssistant a message) (hcomes : b.Comes message parts)
    (h : x.Gathering shard b accepted done t y) (hslot : t.inHand[slot]? = some task)
    (hpart : task.envelope ∈ parts) :
    (y.putDown shard slot).Noted shard (b.joining x.now done) task.envelope
      (y.finish shard slot) := by
  have hslot' : (y.view.traffic shard).inHand[slot]? = some task := by
    rw [h.traffic]
    exact hslot
  obtain ⟨e, raw, rfl⟩ := h.tasks task (List.mem_append_left _ (List.mem_of_getElem? hslot))
  have hjoined : (y.putDown shard slot).assembler? shard = some (b.joining x.now done) := by
    rw [assembler?_putDown]
    exact h.joined
  obtain ⟨s, hs, hassembler⟩ := Option.map_eq_some_iff.1 hjoined
  obtain ⟨hrecipient, hkind, hassistant⟩ := hfor.addressed hcomes hpart
  have hservices : (y.putDown shard slot).bare.services.isAssistant e.recipient
      = x.bare.services.isAssistant e.recipient := by
    rw [bare_of_view (h.view_putDown hslot)]
    rfl
  rw [finish_eq_routeTask hslot', ← hassembler]
  exact noted_routeTask hs hrecipient hkind (hservices.trans hassistant) raw

/-- A part that is routed is joined with the others. The last one makes the assistant's prompt. -/
theorem gathering_finish (hx : x.Orderly) (hfor : x.ForAssistant a message)
    (hcomes : b.Comes message parts) (hsub : accepted.Subperm parts)
    (h : x.Gathering shard b accepted done t y) (hslot : t.inHand[slot]? = some task) :
    (∃ e, done.length + 1 < parts.length ∧ x.Gathering shard b accepted (done ++ [e])
      { t with inHand := t.inHand.eraseIdx slot } (y.finish shard slot)) ∨
    ((y.finish shard slot).view = (x.prompting [⟨shard, message⟩]).view ∧
      accepted.length = parts.length) := by
  have hview := h.view_putDown hslot
  have hperm := h.parts_putDown hslot
  have hrouted : (done ++ [task.envelope]).Subperm parts :=
    ((List.sublist_append_left _ _).subperm.trans hperm.subperm).trans hsub
  obtain ⟨hafter, hjoined⟩ := noted_finish hfor hcomes h hslot
    (hrouted.subset (List.mem_append_right _ List.mem_cons_self))
  have hbare : (y.putDown shard slot).bare = x.bare := bare_of_view hview
  have hprompts : (y.putDown shard slot).pool.prompts = [] :=
    (prompts_of_bare hbare).trans hx.noPrompt
  rw [hprompts, List.nil_append, now_of_bare hbare, hcomes.joins x.now done _ hrouted] at hafter
  rw [now_of_bare hbare, ← Assembler.joining_concat] at hjoined
  have hlength := hrouted.length_le
  rw [List.length_append, List.length_singleton] at hlength
  by_cases hlast : done.length + 1 = parts.length
  · rw [if_pos hlast] at hafter
    have hle := hsub.length_le
    have hcount := hperm.length_eq
    simp only [List.length_append, List.length_map, List.length_singleton] at hcount
    -- all parts were joined, and no more than these were taken in, so none is left
    have hinHand : t.inHand.eraseIdx slot = [] := List.eq_nil_of_length_eq_zero (by omega)
    have hwork : t.work = [] := List.eq_nil_of_length_eq_zero (by omega)
    have hidle : ({ t with inHand := t.inHand.eraseIdx slot } : Traffic) = x.view.traffic shard :=
      (Traffic.ext hwork h.forward hinHand).trans (hx.rest shard).symm
    rw [hidle, View.setTraffic_self] at hview
    exact Or.inr ⟨hafter.trans (view_prompting hview _), by omega⟩
  · rw [if_neg hlast] at hafter
    have hsame := prompting_self hprompts
    refine Or.inl ⟨_, by omega, ?_, hjoined, h.forward, fun task hmem => ?_, hperm⟩
    · exact hafter.trans ((congrArg view hsame).trans hview)
    · exact h.tasks task (((List.eraseIdx_sublist _ _).append_right _).subset hmem)

end Gathering

/-! ## From the prompt to the end -/

/-- The frames in which the assistant's answer goes out. -/
def answerFrames (x : Exchange) (a : Assistant) (message : Envelope) (text : String) : List Bytes :=
  (x.freshId.2.plan (x.answerTo a message text) (x.answerTo a message text).encode).frames

/-- How far the answer may have come. -/
def Answering (x : Exchange) (shard : Nat) (a : Assistant) (message : Envelope) (text : String) :
    Exchange → Prop :=
  x.freshId.2.Phase shard (inbound (x.answerTo a message text) (x.answerTo a message text).encode)
    (fun _ => True) (x.freshId.2.Reaching (x.answerTo a message text)
      (x.answerFrames a message text))

/-- How far a message for the assistant may have come of which some parts were taken in. -/
inductive Attending (x : Exchange) (shard : Nat) (a : Assistant) (b : Assembler)
    (message : Envelope) (text : String) (parts accepted : List Envelope) (asked : List Prompt)
    (y : Exchange) : Prop
  | gathering {done : List Envelope} {t : Traffic} (gap : done.length < parts.length)
      (never : asked = []) (gathered : x.Gathering shard b accepted done t y)
  | prompted (all : accepted.length = parts.length) (never : asked = [])
      (view : y.view = (x.prompting [⟨shard, message⟩]).view)
  | answering (all : accepted.length = parts.length) (once : asked = [⟨shard, message⟩])
      (answer : x.Answering shard a message text y)

section Attending

variable {x y z : Exchange} {shard : Nat} {a : Assistant} {b : Assembler}
  {message f : Envelope} {raw : Bytes} {text : String} {accepted parts : List Envelope}
  {asked : List Prompt}

theorem Orderly.freshId (hx : x.Orderly) : x.freshId.2.Orderly :=
  ⟨hx.well, hx.reachable, hx.limits, hx.rest, hx.noPrompt, hx.agrees, hx.owned, hx.members⟩

/-- The answer is a message for the one who asked. -/
theorem personal_answerTo (hfor : x.ForAssistant a message) (text : String) :
    x.freshId.2.Personal (x.answerTo a message text) where
  recipient := hfor.sender
  kind := rfl
  person := by
    rw [Bool.eq_false_iff]
    -- the answer would go to the assistant itself
    intro hassistant
    have ha : x.freshId.2.services.assistant = some a := hfor.assistant
    exact hfor.apart ((isAssistant_iff ha _).1 hassistant).symm
  whole := rfl

theorem handling_answer (hx : x.Orderly) (hcaught : x.CaughtUp) (hfor : x.ForAssistant a message)
    (hshard : (x.shard? shard).isSome) (text : String) :
    Handling x.freshId.2 shard
      (inbound (x.answerTo a message text) (x.answerTo a message text).encode) Action.serves
      (fun _ => True) (x.freshId.2.Reaching (x.answerTo a message text)
        (x.answerFrames a message text)) Settled :=
  handling_reaching hx.freshId hcaught (personal_answerTo hfor text) hshard _

/-- The assistant answers the prompt. -/
theorem answering_of_prompted (hx : x.Orderly) (hcaught : x.CaughtUp)
    (hfor : x.ForAssistant a message) (htext : a.answer message.content = .ok text)
    (hview : y.view = (x.prompting [⟨shard, message⟩]).view) :
    x.Answering shard a message text y.answer := by
  have hbare : y.bare = (x.prompting [⟨shard, message⟩]).bare := bare_of_view hview
  have hprompts : y.pool.prompts = [⟨shard, message⟩] := prompts_of_bare hbare
  have hwell : y.services.outages = [] := (outages_of_bare hbare).trans hx.well
  have hassistant : y.services.assistant = some a := by
    have hsame : y.bare.services.assistant = x.bare.services.assistant := by
      rw [hbare]
      rfl
    exact hsame.trans hfor.assistant
  have hanswer : y.answerTo a message text = x.answerTo a message text := by
    have hsame := answerTo_of_view hview a message text
    exact hsame
  -- the prompt is off, and an identity was handed out for the answer
  have hdrawn : (y.prompting []).freshId.2.view = x.freshId.2.view := by
    have hsame : (y.prompting []).view = x.view := by
      refine (view_prompting hview []).trans (congrArg view ?_)
      exact prompting_self hx.noPrompt
    exact congrArg (fun v : View => { v with issued := v.issued + 1 }) hsame
  rw [answer_of_prompt hwell hassistant hprompts htext, hanswer]
  rcases (y.prompting []).freshId.2.submit_cases shard
      (inbound (x.answerTo a message text) (x.answerTo a message text).encode) with
    ⟨z, hsubmit, -, hz⟩ | ⟨fault, z, hsubmit, hz, -⟩
  · -- the work queue takes the answer, which waits there alone
    rw [hsubmit]
    refine .queued ?_ trivial
    have hidle : x.freshId.2.view.traffic shard = {} := hx.rest shard
    rw [hz, hdrawn, hidle]
    rfl
  · -- the work queue is full, and the answer is lost
    rw [hsubmit]
    refine .routed (reaching_nothing hx.freshId hcaught ?_ _)
    exact ⟨_, Nat.le_refl _, hz.trans hdrawn⟩

theorem shard?_isSome_of_assembler? (hb : x.assembler? shard = some b) :
    (x.shard? shard).isSome := by
  obtain ⟨s, hs, -⟩ := Option.map_eq_some_iff.1 hb
  rw [hs]
  rfl

theorem attending_start (hcomes : b.Comes message parts) (hx : x.Orderly)
    (hb : x.assembler? shard = some b) (a : Assistant) (text : String) :
    x.Attending shard a b message text parts [] [] x := by
  have hgathered : x.Gathering shard b [] [] {} x := by
    refine ⟨?_, hb, rfl, fun _ hmem => absurd hmem List.not_mem_nil, List.Perm.refl _⟩
    exact ((congrArg (x.view.setTraffic shard) (hx.rest shard)).symm.trans
      (View.setTraffic_self ..)).symm
  have hgap : ([] : List Envelope).length < parts.length := List.length_pos_iff.2 hcomes.ne_nil
  exact .gathering hgap rfl hgathered

/-- One more part is taken in. -/
theorem attending_taken (h : x.Attending shard a b message text parts accepted asked y)
    (hand : y.enqueueEnvelope shard f raw = (.ok (), z)) (once : (accepted ++ [f]).Subperm parts) :
    x.Attending shard a b message text parts (accepted ++ [f]) asked z := by
  have hlength := once.length_le
  rw [List.length_append, List.length_singleton] at hlength
  cases h with
  | gathering hgap hnever hgathered =>
      exact .gathering hgap hnever (gathering_taken hgathered hand)
  -- all parts were taken in before, so this one would be one too many
  | prompted hall hnever hview => omega
  | answering hall honce hanswer => omega

/-- Nothing comes of a part that is refused. -/
theorem attending_refused (h : x.Attending shard a b message text parts accepted asked y)
    {fault : Fault} (hand : y.enqueueEnvelope shard f raw = (.error fault, z)) :
    x.Attending shard a b message text parts accepted asked z := by
  have hsubmit : y.submit shard (inbound f raw) = (.error fault, z) := hand
  have hassembler := y.assembler?_submit shard (inbound f raw)
  rw [hsubmit] at hassembler
  have hsame : z.view = y.view := by
    rcases y.submit_cases shard (inbound f raw) with ⟨z', hz, -, -⟩ | ⟨fault', z', hz, hview, -⟩
    · cases (Prod.mk.inj (hsubmit.symm.trans hz)).1
    · obtain rfl := (Prod.mk.inj (hsubmit.symm.trans hz)).2
      exact hview
  cases h with
  | gathering hgap hnever hgathered =>
      exact .gathering hgap hnever ⟨hsame.trans hgathered.view,
        (congrFun hassembler shard).trans hgathered.joined, hgathered.forward, hgathered.tasks,
        hgathered.parts⟩
  | prompted hall hnever hview => exact .prompted hall hnever (hsame.trans hview)
  | answering hall honce hanswer =>
      refine .answering hall honce ?_
      cases hanswer with
      | queued hview _ => exact .queued (hsame.trans hview) trivial
      | taken hview _ => exact .taken (hsame.trans hview) trivial
      | routed hreaching => exact .routed (hreaching.congr hsame)

/-- While parts are gathered, processors have something to do, and nobody else has. -/
theorem attending_act_of_gathering (hx : x.Orderly) (hcaught : x.CaughtUp)
    (hfor : x.ForAssistant a message) (hcomes : b.Comes message parts)
    (hsub : accepted.Subperm parts) {done : List Envelope} {t : Traffic}
    (hgap : done.length < parts.length) (h : x.Gathering shard b accepted done t y)
    {action : Action} (haction : action.serves = true) :
    x.Attending shard a b message text parts accepted [] (y.act action) := by
  have hforward := part_of_setTraffic Traffic.forward hx.rest h.view h.forward
  have hsame : y.act action = y → x.Attending shard a b message text parts accepted []
      (y.act action) := by
    intro hact
    rw [hact]
    exact .gathering hgap rfl h
  have hidle : ∀ id, id ≠ shard → y.view.traffic id = {} := by
    intro id hid
    rw [traffic_of_setTraffic hx.rest h.view, if_neg hid]
  -- nothing was handed over or published, so only processors have something to do
  rcases act_of_waiting hx hcaught h.bare hforward (Action.handles_of_serves haction) with
    ⟨id, rfl⟩ | ⟨id, slot, rfl⟩ | ⟨id, rfl⟩ | hact
  · by_cases hid : id = shard
    · subst hid
      by_cases hfree : t.inHand.length < y.processors
      · cases hwork : t.work with
        | nil => exact hsame (take_of_nil (by rw [h.traffic]; exact hwork))
        | cons task rest => exact .gathering hgap rfl (gathering_take h hwork hfree)
      · exact hsame (take_of_busy (by rwa [h.traffic]))
    · exact hsame (take_of_idle (hidle id hid))
  · by_cases hid : id = shard
    · subst hid
      cases hslot : t.inHand[slot]? with
      | none => exact hsame (finish_of_none (by rw [h.traffic]; exact hslot))
      | some task =>
          rcases gathering_finish hx hfor hcomes hsub h hslot with ⟨e, hgap', h'⟩ | ⟨hview, hall⟩
          · refine .gathering ?_ rfl h'
            rwa [List.length_append, List.length_singleton]
          · exact .prompted hall rfl hview
    · exact hsame (finish_of_idle (hidle id hid) slot)
  · exact absurd haction Bool.false_ne_true
  · exact hsame hact

theorem prompts_of_answering (hx : x.Orderly) (h : x.Answering shard a message text y) :
    y.pool.prompts = [] := by
  have hnone : x.freshId.2.pool.prompts = [] := hx.noPrompt
  cases h with
  | queued hview _ =>
      have hbare : y.bare = x.freshId.2.bare := bare_of_view hview
      exact (prompts_of_bare hbare).trans hnone
  | taken hview _ =>
      have hbare : y.bare = x.freshId.2.bare := bare_of_view hview
      exact (prompts_of_bare hbare).trans hnone
  | routed hreaching =>
      cases hreaching with
      | nearing hheld hnear =>
          have hprompts : y.muted.pool.prompts = x.freshId.2.muted.pool.prompts :=
            prompts_of_bare hnear.bare
          exact hprompts.trans hnone
      | kept kept haway hbare hrest hmail hoffline hwhat =>
          exact (prompts_of_bare hbare).trans hnone

/-- A prompt waits for the assistant, and nobody else has anything to do. -/
theorem attending_act_of_prompted (hx : x.Orderly) (hcaught : x.CaughtUp)
    (hfor : x.ForAssistant a message) (htext : a.answer message.content = .ok text)
    (hall : accepted.length = parts.length)
    (hview : y.view = (x.prompting [⟨shard, message⟩]).view) {action : Action}
    (haction : action.serves = true) :
    x.Attending shard a b message text parts accepted (y.asking action) (y.act action) := by
  have hbare : y.bare = (x.prompting [⟨shard, message⟩]).bare := bare_of_view hview
  have hrest : ∀ id, y.view.traffic id = {} := fun id =>
    (traffic_of_view hview id).trans (hx.rest id)
  have hcaught' : (x.prompting [⟨shard, message⟩]).CaughtUp := hcaught
  have hprompts : y.pool.prompts = [⟨shard, message⟩] := prompts_of_bare hbare
  have hsame : y.asking action = [] → y.act action = y →
      x.Attending shard a b message text parts accepted (y.asking action) (y.act action) := by
    intro hasking hact
    rw [hasking, hact]
    exact .prompted hall rfl hview
  cases action, haction using Action.serves_cases with
  | answer =>
      refine .answering hall ?_ (answering_of_prompted hx hcaught hfor htext hview)
      rw [asking, hprompts]
      rfl
  | take id => exact hsame rfl (take_of_idle (hrest id))
  | finish id slot => exact hsame rfl (finish_of_idle (hrest id) slot)
  | relay id => exact hsame rfl (relay_of_idle (hrest id))
  | consume => exact hsame rfl (consume_of_caughtUp (caughtUp_of_bare hbare hcaught'))

/-- **Whatever is done next**, the message comes on, and the assistant is asked once. -/
theorem attending_act (hx : x.Orderly) (hcaught : x.CaughtUp) (hshard : (x.shard? shard).isSome)
    (hfor : x.ForAssistant a message) (hcomes : b.Comes message parts)
    (htext : a.answer message.content = .ok text) (hsub : accepted.Subperm parts)
    (h : x.Attending shard a b message text parts accepted asked y) {action : Action}
    (haction : action.serves = true) :
    x.Attending shard a b message text parts accepted (asked ++ y.asking action)
      (y.act action) := by
  cases h with
  | gathering hgap hnever hgathered =>
      rw [hnever, asking_of_nil ((prompts_of_bare hgathered.bare).trans hx.noPrompt)]
      exact attending_act_of_gathering hx hcaught hfor hcomes hsub hgap hgathered haction
  | prompted hall hnever hview =>
      rw [hnever]
      exact attending_act_of_prompted hx hcaught hfor htext hall hview haction
  | answering hall honce hanswer =>
      -- the prompt is off and no other comes, so the assistant is not asked again
      rw [asking_of_nil (prompts_of_answering hx hanswer), List.append_nil]
      exact .answering hall honce (phase_act hx.freshId
        (handling_answer hx hcaught hfor hshard text) hanswer haction)

/-- **Whatever happens**, the message comes on, and the assistant is asked once. -/
theorem attending_of_course (hx : x.Orderly) (hcaught : x.CaughtUp)
    (hb : x.assembler? shard = some b) (hfor : x.ForAssistant a message)
    (hcomes : b.Comes message parts) (htext : a.answer message.content = .ok text)
    (h : x.Course shard parts accepted asked y) :
    x.Attending shard a b message text parts accepted asked y := by
  have hshard := shard?_isSome_of_assembler? hb
  -- on what happened: a part is taken in or refused, or something is done
  induction h with
  | start => exact attending_start hcomes hx hb a text
  | taken h hand once ih => exact attending_taken ih hand once
  | refused h hand ih => exact attending_refused ih hand
  | act h serves ih =>
      exact attending_act hx hcaught hshard hfor hcomes htext h.subperm ih serves

/-! ## To the end -/

/-- What may be done leads to rest. -/
def CanRest (y : Exchange) : Prop :=
  ∃ more : List Action, (∀ action ∈ more, action.serves = true) ∧ (y.run more).Quiet

theorem canRest_of_quiet (h : y.Quiet) : y.CanRest :=
  ⟨[], fun _ hmem => absurd hmem List.not_mem_nil, h⟩

theorem canRest_of_act {action : Action} (haction : action.serves = true)
    (h : (y.act action).CanRest) : y.CanRest := by
  obtain ⟨more, hmore, hquiet⟩ := h
  exact ⟨action :: more, List.forall_mem_cons.2 ⟨haction, hmore⟩, hquiet⟩

theorem canRest_of_answering (hx : x.Orderly) (hcaught : x.CaughtUp)
    (hshard : (x.shard? shard).isSome) (hfor : x.ForAssistant a message)
    (h : x.Answering shard a message text y) : y.CanRest := by
  have hhandling := handling_answer hx hcaught hfor hshard text
  obtain ⟨more, hmore, hsettled⟩ := phase_settles hx.freshId hhandling h
  exact ⟨more, hmore, hsettled, prompts_of_answering hx (phase_run hx.freshId hhandling h hmore)⟩

theorem canRest_of_prompted (hx : x.Orderly) (hcaught : x.CaughtUp)
    (hshard : (x.shard? shard).isSome) (hfor : x.ForAssistant a message)
    (htext : a.answer message.content = .ok text)
    (hview : y.view = (x.prompting [⟨shard, message⟩]).view) : y.CanRest := by
  have hnext : (y.act .answer).CanRest := canRest_of_answering hx hcaught hshard hfor
    (answering_of_prompted hx hcaught hfor htext hview)
  exact canRest_of_act rfl hnext

/-- The parts that wait can all be joined. -/
theorem canRest_of_gathering (hx : x.Orderly) (hcaught : x.CaughtUp)
    (hshard : (x.shard? shard).isSome) (hfor : x.ForAssistant a message)
    (hcomes : b.Comes message parts) (htext : a.answer message.content = .ok text)
    (hsub : accepted.Subperm parts) {done : List Envelope} {t : Traffic}
    (h : x.Gathering shard b accepted done t y) : y.CanRest := by
  -- on the steps that are left: a part is taken, and then it is joined
  induction htodo : 2 * t.work.length + t.inHand.length using Nat.strong_induction_on
    generalizing done t y with
  | _ todo ih =>
      cases hinHand : t.inHand with
      | cons task inHand =>
          have hslot : t.inHand[0]? = some task := by
            rw [hinHand]
            rfl
          have hnext : (y.act (.finish shard 0)).CanRest := by
            rcases gathering_finish hx hfor hcomes hsub h hslot with ⟨e, -, h'⟩ | ⟨hview, -⟩
            · refine ih _ ?_ h' rfl
              rw [← htodo, hinHand]
              simp only [List.eraseIdx_zero, List.tail_cons, List.length_cons]
              omega
            · exact canRest_of_prompted hx hcaught hshard hfor htext hview
          exact canRest_of_act rfl hnext
      | nil =>
          cases hwork : t.work with
          | cons task rest =>
              have hfree : t.inHand.length < y.processors := by
                rw [hinHand]
                exact Nat.lt_of_lt_of_le Nat.zero_lt_one (Nat.le_max_left 1 _)
              have hnext : (y.act (.take shard)).CanRest := by
                refine ih _ ?_ (gathering_take h hwork hfree) rfl
                rw [← htodo, hwork]
                simp only [List.length_append, List.length_cons, List.length_nil]
                omega
              exact canRest_of_act rfl hnext
          | nil =>
              have hidle : t = {} := Traffic.ext hwork h.forward hinHand
              refine canRest_of_quiet ⟨⟨fun id => ?_, ?_⟩, ?_⟩
              · rw [traffic_of_setTraffic hx.rest h.view, hidle, ite_self]
              · exact consuming_of_caughtUp (caughtUp_of_bare h.bare hcaught)
              · exact (prompts_of_bare h.bare).trans hx.noPrompt

/-- **However far a message has come, it can be brought to its end.** -/
theorem canRest_of_attending (hx : x.Orderly) (hcaught : x.CaughtUp)
    (hshard : (x.shard? shard).isSome) (hfor : x.ForAssistant a message)
    (hcomes : b.Comes message parts) (htext : a.answer message.content = .ok text)
    (hsub : accepted.Subperm parts)
    (h : x.Attending shard a b message text parts accepted asked y) : y.CanRest := by
  cases h with
  | gathering hgap hnever hgathered =>
      exact canRest_of_gathering hx hcaught hshard hfor hcomes htext hsub hgathered
  | prompted hall hnever hview => exact canRest_of_prompted hx hcaught hshard hfor htext hview
  | answering hall honce hanswer => exact canRest_of_answering hx hcaught hshard hfor hanswer

/-- Where everything has come to rest and all parts were taken in, the assistant was asked. -/
theorem asked_of_quiet (h : x.Attending shard a b message text parts accepted asked y)
    (hquiet : y.Quiet) (hall : accepted.length = parts.length) : asked = [⟨shard, message⟩] := by
  cases h with
  | gathering hgap hnever hgathered =>
      -- nothing waits, so all that were taken in were joined, and the last would have made the
      -- prompt
      have hidle := hquiet.1.1 shard
      rw [hgathered.traffic] at hidle
      have hcount := hgathered.parts.length_eq
      rw [hidle] at hcount
      simp only [List.append_nil, List.map_nil] at hcount
      omega
  | prompted hall' hnever hview =>
      -- the prompt would still be there
      have hbare : y.bare = (x.prompting [⟨shard, message⟩]).bare := bare_of_view hview
      exact absurd ((prompts_of_bare hbare).symm.trans hquiet.2) (List.cons_ne_nil _ _)
  | answering hall' honce hanswer => exact honce

/-! ## Who gets something -/

/-- Nobody but the sender of a message got anything. A connection of the sender got frames of the
answer, each of them once at most, and nothing was kept. If the sender is away, the answer may have
been kept, once and for the sender. -/
structure StaysBetween (x : Exchange) (message answer : Envelope) (frames : List Bytes)
    (y : Exchange) : Prop where
  others : ∀ session, (∀ id, x.holder? id message.sender ≠ some session) →
    y.mail session = x.mail session
  connected : ∀ id session, x.holder? id message.sender = some session →
    y.services.offline = x.services.offline ∧ ∃ arrived : List Bytes,
      y.mail session = (x.mail session).map (·.add arrived) ∧ arrived.Subperm frames
  away : (∀ id, x.holder? id message.sender = none) → ∃ kept,
    y.services.offline = x.services.offline ++ kept ∧
      (kept = [] ∨ ∃ first next, answer.Kept message.sender x.now first next kept)

theorem staysBetween_nothing (hmail : y.mail = x.mail)
    (hoffline : y.services.offline = x.services.offline) (message answer : Envelope)
    (frames : List Bytes) : x.StaysBetween message answer frames y where
  others session _ := congrFun hmail session
  connected id session _ := by
    refine ⟨hoffline, [], ?_, List.nil_subperm⟩
    rw [hmail]
    exact add_nil_of_mail _
  away _ := ⟨[], by rw [hoffline, List.append_nil], Or.inl rfl⟩

theorem staysBetween_of_reaching (hx : x.Orderly)
    (h : x.freshId.2.Reaching (x.answerTo a message text) (x.answerFrames a message text) y) :
    x.StaysBetween message (x.answerTo a message text) (x.answerFrames a message text) y := by
  cases h with
  | @nearing owner session hheld hnear =>
      have hheld : x.holder? owner message.sender = some session := hheld
      obtain ⟨arrived, hmail, hsub⟩ := hnear.mail
      refine ⟨fun τ hτ => ?_, fun id τ hτ => ?_, fun haway => ?_⟩
      · refine hnear.others τ ?_
        rintro rfl
        exact hτ owner hheld
      · -- the sender is held at one shard only, and this is the connection
        obtain rfl := (hx.agrees message.sender).unique _ _ _ _ hτ hheld
        obtain rfl := Option.some.inj (hτ.symm.trans hheld)
        refine ⟨hnear.offline, arrived, hmail, ?_⟩
        exact (List.sublist_append_left _ _).subperm.trans hsub
      · exact absurd (hheld.symm.trans (haway owner)) (Option.some_ne_none _)
  | kept kept haway hbare hrest hmail hoffline hwhat =>
      have haway : ∀ id, x.holder? id message.sender = none := haway
      refine ⟨fun τ _ => congrFun hmail τ, fun id τ hτ => ?_, fun _ => ⟨kept, hoffline, ?_⟩⟩
      · exact absurd (hτ.symm.trans (haway id)) (Option.some_ne_none _)
      · refine hwhat.imp id ?_
        rintro ⟨next, hkept⟩
        exact ⟨_, next, hkept⟩

theorem staysBetween_of_attending (hx : x.Orderly)
    (h : x.Attending shard a b message text parts accepted asked y) :
    x.StaysBetween message (x.answerTo a message text) (x.answerFrames a message text) y := by
  cases h with
  | gathering hgap hnever hgathered =>
      have hview := hgathered.view
      exact staysBetween_nothing (mail_of_view hview) (offline_of_view hview) _ _ _
  | prompted hall hnever hview =>
      exact staysBetween_nothing (x := x) (mail_of_view hview) (offline_of_view hview) _ _ _
  | answering hall honce hanswer =>
      cases hanswer with
      | queued hview _ =>
          exact staysBetween_nothing (x := x) (mail_of_view hview) (offline_of_view hview) _ _ _
      | taken hview _ =>
          exact staysBetween_nothing (x := x) (mail_of_view hview) (offline_of_view hview) _ _ _
      | routed hreaching => exact staysBetween_of_reaching hx hreaching

/-- **What somebody else asks the assistant stays between them, and comes to an end.** -/
theorem staysBetween_of_course (hx : x.Orderly) (hcaught : x.CaughtUp)
    (hb : x.assembler? shard = some b) (hfor : x.ForAssistant a message)
    (hcomes : b.Comes message parts) (htext : a.answer message.content = .ok text)
    (h : x.Course shard parts accepted asked y) :
    x.StaysBetween message (x.answerTo a message text) (x.answerFrames a message text) y ∧
      (asked = [] ∨ asked = [⟨shard, message⟩]) ∧ y.CanRest ∧
      (y.Quiet → accepted.length = parts.length → asked = [⟨shard, message⟩]) := by
  have hshard := shard?_isSome_of_assembler? hb
  have hattending := attending_of_course hx hcaught hb hfor hcomes htext h
  refine ⟨staysBetween_of_attending hx hattending, ?_, ?_, asked_of_quiet hattending⟩
  · cases hattending with
    | gathering hgap hnever hgathered => exact Or.inl hnever
    | prompted hall hnever hview => exact Or.inl hnever
    | answering hall honce hanswer => exact Or.inr honce
  · exact canRest_of_attending hx hcaught hshard hfor hcomes htext h.subperm hattending

end Attending

/-- An assistant that says what it was asked. -/
def echo : Assistant := { identity := "echo", answer := .ok }

/-- Two shards, with Ann at the first of them and Bob at the second, and an assistant. -/
def withEcho : Exchange := { withCrew with services.assistant := some echo }

/-- A question for the assistant. -/
def toEcho (sender : String) : Envelope := .direct sender "echo" .text "hello" 1

theorem orderly_withEcho : withEcho.Orderly :=
  have h := orderly_withCrew
  ⟨h.well, h.reachable, h.limits, h.rest, h.noPrompt, h.agrees, h.owned, h.members⟩

/-- The question was taken in at Bob's shard. -/
theorem course_withEcho (sender : String) : withEcho.Course 1 [toEcho sender] [toEcho sender] []
    (withEcho.enqueueEnvelope 1 (toEcho sender) []).2 :=
  have hand : withEcho.enqueueEnvelope 1 (toEcho sender) []
      = (.ok (), (withEcho.enqueueEnvelope 1 (toEcho sender) []).2) := rfl
  .taken .start hand (List.Subperm.refl _)

theorem staysBetween_of_course_bob : ∃ y,
    withEcho.Course 1 [toEcho "bob"] [toEcho "bob"] [⟨1, toEcho "bob"⟩] y ∧ y.Quiet ∧
    withEcho.StaysBetween (toEcho "bob") (withEcho.answerTo echo (toEcho "bob") "hello")
      (withEcho.answerFrames echo (toEcho "bob") "hello") y := by
  have hfor : withEcho.ForAssistant echo (toEcho "bob") :=
    ⟨rfl, by decide, rfl, rfl, by decide, by decide⟩
  have hcomes : (Assembler.new withEcho.config.fragment.limits).Comes (toEcho "bob")
      [toEcho "bob"] :=
    .whole rfl
  have hcaught : withEcho.CaughtUp := caughtUp_of_off rfl
  have hcourse := course_withEcho "bob"
  obtain ⟨-, -, ⟨more, hmore, hquiet⟩, -⟩ := staysBetween_of_course orderly_withEcho hcaught rfl
    hfor hcomes rfl hcourse
  have hcourse' := hcourse.run hmore
  obtain ⟨hbetween, -, -, hasked⟩ := staysBetween_of_course orderly_withEcho hcaught rfl hfor hcomes
    rfl hcourse'
  rw [hasked hquiet rfl] at hcourse'
  exact ⟨_, hcourse', hquiet, hbetween⟩

/-- The question is routed and answered, and the answer is routed. -/
def exchanged : List Action :=
  [.take 1, .finish 1 0, .answer, .take 1, .finish 1 0]

/-- The answer to a question of nobody goes to everybody, and an assistant that is asked in its own
name is asked again. -/
theorem not_staysBetween :
    (∃ asked y, withEcho.Course 1 [toEcho ""] [toEcho ""] asked y ∧ y.Quiet ∧
      ∀ answer frames, ¬ withEcho.StaysBetween (toEcho "") answer frames y) ∧
    ∃ asked y, withEcho.Course 1 [toEcho "echo"] [toEcho "echo"] asked y ∧ 1 < asked.length := by
  have hserves : ∀ action ∈ exchanged, action.serves = true := by decide
  have hagain : ∀ action ∈ exchanged ++ [.answer], action.serves = true := by decide
  refine ⟨⟨_, _, (course_withEcho "").run hserves, ⟨⟨fun id => ?_, rfl⟩, rfl⟩,
    fun answer frames h => ?_⟩, _, _, (course_withEcho "echo").run hagain, ?_⟩
  · rcases id with _ | _ | id
    · rfl
    · rfl
    · rfl
  · have hnobody : ∀ id, withEcho.holder? id "" ≠ some 0 := by
      intro id
      rcases id with _ | _ | id
      · exact (Option.some_ne_none 0).symm
      · exact (Option.some_ne_none 0).symm
      · exact (Option.some_ne_none 0).symm
    have hlength := congrArg (fun m : Option Mailbox => m.map fun b => b.frames.length)
      (h.others 0 hnobody)
    exact absurd (Option.some.inj hlength) Nat.one_ne_zero
  · exact Nat.one_lt_two

end Exchange

end Switchboard
