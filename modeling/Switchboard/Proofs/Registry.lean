import Switchboard.Proofs.Table
import Switchboard.Registry

/-!
# Who holds an identity

A registry is followed through any calls, and its `log` has each call with its answer. Whose a
session is never changes: `owner` gives every session its identity. A call is about one identity,
and the call alone says from which sessions it takes it if they have it (`Call.takesFrom`): who
comes in takes it from anybody, who leaves only from itself, and to expel takes it from all but one.

So who holds an identity can be read off the calls without any registry (`Remains`): the session
that came in under it last, if no call since was such as to take it away. The registry holds just
this one (`holder_after_eq_some_iff`). Whoever has lost the identity is a stranger until it comes in
again: nothing that is done meanwhile finds it (`stranger_after`). `held_of_calls` puts this
together.
-/

namespace Switchboard

namespace Registry

/-- What is done with a registry. -/
inductive Call
  /-- A session comes in under its identity. -/
  | hold (session : Session)
  /-- A session leaves, if it is the one that has its identity. -/
  | release (session : Session)
  /-- Whoever has an identity leaves, unless it is the session to keep. -/
  | expel (identity : String) (keep : Session)
  deriving DecidableEq, Repr

/-- What comes of a call. -/
inductive Answer
  /-- Who had the identity before. -/
  | replaced (session : Option Session)
  /-- Whether the session had its identity. -/
  | released (left : Bool)
  /-- Who had to leave. -/
  | expelled (session : Option Session)
  deriving DecidableEq, Repr

namespace Call

/-- The identity that a call is about. -/
def identity (owner : Session → String) : Call → String
  | hold session => owner session
  | release session => owner session
  | expel identity _ => identity

/-- Whether a call takes its identity from a session that has it. -/
def takesFrom : Call → Session → Bool
  | hold _, _ => true
  | release session, holder => holder = session
  | expel _ keep, holder => holder ≠ keep

end Call

/-- Who lost an identity by a call, as the answer tells. -/
def lost? : Call × Answer → Option Session
  | (_, .replaced session) => session
  | (.release session, .released true) => some session
  | (_, .released _) => none
  | (_, .expelled session) => session

def handle (owner : Session → String) (r : Registry) : Call → Answer × Registry
  | .hold session =>
      (.replaced (r.hold (owner session) session).1, (r.hold (owner session) session).2)
  | .release session =>
      (.released (r.release (owner session) session).1, (r.release (owner session) session).2)
  | .expel identity keep => (.expelled (r.expel identity keep).1, (r.expel identity keep).2)

/-- What a registry comes to after some calls. -/
def after (owner : Session → String) (r : Registry) (calls : List Call) : Registry :=
  calls.foldl (fun r call => (handle owner r call).2) r

/-- Some calls, each with its answer. -/
def log (owner : Session → String) : Registry → List Call → List (Call × Answer)
  | _, [] => []
  | r, call :: calls => (call, (handle owner r call).1) :: log owner (handle owner r call).2 calls

/-- A session came in under its identity, and no call since was such as to take it away. -/
def Remains (owner : Session → String) (calls : List Call) (session : Session) : Prop :=
  ∃ before since, calls = before ++ .hold session :: since ∧
    ∀ call ∈ since, call.identity owner = owner session → call.takesFrom session = false

/-- Every identity is held by a session that it belongs to. -/
def Keyed (owner : Session → String) (r : Registry) : Prop :=
  ∀ identity session, r.holder identity = some session → owner session = identity

variable {owner : Session → String} {r : Registry} {call : Call} {calls later : List Call}
  {identity : String} {session keep : Session}

/-! ## Every call -/

/-- Whoever has the identity has to leave, if it is not the session to keep. -/
theorem expel_fst (r : Registry) (identity : String) (keep : Session) :
    (r.expel identity keep).1 = (r.holder identity).filter fun holder => holder ≠ keep := by
  by_cases h : ∀ holder, r.holder identity = some holder → holder = keep
  · rw [expel_of_keep h, Option.filter_eq_none_iff.2]
    exact fun holder hholder => by simpa using h holder hholder
  · simp only [Classical.not_forall] at h
    obtain ⟨session, hsession, hne⟩ := h
    rw [expel_of_holder hsession hne, hsession, Option.filter_some_pos (by simpa using hne)]

theorem holder_erase_eq_some_iff {other : String} :
    holder (r.erase identity) other = some session
      ↔ r.holder other = some session ∧ other ≠ identity := by
  show (r.erase identity).get? other = some session ↔ _
  rw [Table.get?_erase]
  by_cases heq : other = identity
  · simp [heq]
  · rw [if_neg heq]
    exact (and_iff_left heq).symm

/-- The answer tells who lost the identity: whoever had it, if the call takes it from that
session. -/
theorem lost?_handle_eq_some_iff :
    lost? (call, (handle owner r call).1) = some session
      ↔ r.holder (call.identity owner) = some session ∧ call.takesFrom session = true := by
  cases call with
  | hold newcomer => exact (and_iff_left rfl).symm
  | release leaver =>
      show lost? (.release leaver, .released (r.release (owner leaver) leaver).1) = some session
        ↔ r.holder (owner leaver) = some session ∧ decide (session = leaver) = true
      rw [release_fst, decide_eq_true_iff]
      by_cases h : r.holder (owner leaver) = some leaver
      · rw [decide_eq_true h, h]
        exact ⟨fun heq => ⟨heq, (Option.some.inj heq).symm⟩, And.left⟩
      · rw [decide_eq_false h]
        exact iff_of_false nofun fun hboth => h (hboth.2 ▸ hboth.1)
  | expel about keep =>
      show (r.expel about keep).1 = some session ↔ _
      rw [expel_fst, Option.filter_eq_some_iff]
      rfl

/-- A call by which nobody comes in takes its identity from whoever has it, or changes nothing. -/
theorem handle_snd_cases (owner : Session → String) (r : Registry)
    (hcall : ∀ newcomer, call ≠ .hold newcomer) :
    let about := call.identity owner
    (∃ loser, r.holder about = some loser ∧ call.takesFrom loser = true ∧
      (handle owner r call).2 = r.erase about) ∨
    ((∀ holder, r.holder about = some holder → call.takesFrom holder = false) ∧
      (handle owner r call).2 = r) := by
  cases call with
  | hold newcomer => exact absurd rfl (hcall newcomer)
  | release leaver =>
      by_cases h : r.holder (owner leaver) = some leaver
      · exact Or.inl ⟨leaver, h, decide_eq_true rfl, congrArg Prod.snd (release_of_holder h)⟩
      · have hsnd := congrArg Prod.snd (release_of_ne h)
        refine Or.inr ⟨fun holder hholder => decide_eq_false ?_, hsnd⟩
        rintro rfl
        exact h hholder
  | expel about keep =>
      by_cases h : ∀ holder, r.holder about = some holder → holder = keep
      · have hsnd := congrArg Prod.snd (expel_of_keep h)
        refine Or.inr ⟨fun holder hholder => decide_eq_false ?_, hsnd⟩
        exact fun hne => hne (h holder hholder)
      · simp only [Classical.not_forall] at h
        obtain ⟨loser, hloser, hne⟩ := h
        exact Or.inl ⟨loser, hloser, decide_eq_true hne,
          congrArg Prod.snd (expel_of_holder hloser hne)⟩

/-- **What a call does**: a newcomer gets its identity, and whoever has one keeps it, unless the
call is about it and takes it from that session. -/
theorem holder_handle_eq_some_iff :
    (handle owner r call).2.holder identity = some session
      ↔ call = .hold session ∧ owner session = identity ∨
        r.holder identity = some session ∧
          (call.identity owner = identity → call.takesFrom session = false) := by
  by_cases hcall : ∃ newcomer, call = .hold newcomer
  · obtain ⟨newcomer, rfl⟩ := hcall
    show (r.insert (owner newcomer) newcomer).get? identity = some session ↔ _
    rw [Table.get?_insert]
    split
    · next heq =>
        -- whoever had the identity has lost it
        subst heq
        constructor
        · intro h
          obtain rfl := Option.some.inj h
          exact Or.inl ⟨rfl, rfl⟩
        · rintro (⟨hnew, -⟩ | ⟨-, hkept⟩)
          · rw [Call.hold.inj hnew]
          · cases hkept rfl
    · next hne =>
        constructor
        · exact fun h => Or.inr ⟨h, fun heq => absurd heq.symm hne⟩
        · rintro (⟨hnew, howner⟩ | ⟨h, -⟩)
          · rw [Call.hold.inj hnew, howner] at hne
            exact absurd rfl hne
          · exact h
  · rw [not_exists] at hcall
    rw [or_iff_right fun h => hcall session h.1]
    rcases handle_snd_cases owner r hcall with ⟨loser, hloser, htakes, heq⟩ | ⟨hkept, heq⟩
    · rw [heq, holder_erase_eq_some_iff]
      refine and_congr_right fun hholder => ⟨fun hne habout => absurd habout.symm hne, ?_⟩
      rintro hkept rfl
      -- the session that has the identity is the one that the call takes it from
      obtain rfl := Option.some.inj (hloser.symm.trans hholder)
      rw [hkept rfl] at htakes
      cases htakes
    · rw [heq]
      refine (and_iff_left_of_imp fun hholder => ?_).symm
      rintro rfl
      exact hkept session hholder

/-! ## Any calls -/

theorem after_concat (owner : Session → String) (r : Registry) (calls : List Call) (call : Call) :
    r.after owner (calls ++ [call]) = ((r.after owner calls).handle owner call).2 :=
  List.foldl_concat ..

theorem remains_concat_iff :
    Remains owner (calls ++ [call]) session
      ↔ call = .hold session ∨ Remains owner calls session ∧
          (call.identity owner = owner session → call.takesFrom session = false) := by
  constructor
  · rintro ⟨before, since, heq, hsince⟩
    rcases List.eq_nil_or_concat' since with rfl | ⟨since, last, rfl⟩
    · exact Or.inl (List.cons_eq_cons.1 (List.append_inj' heq rfl).2).1
    · rw [← List.cons_append, ← List.append_assoc] at heq
      obtain ⟨rfl, hlast⟩ := List.append_inj' heq rfl
      obtain rfl := (List.cons_eq_cons.1 hlast).1
      exact Or.inr ⟨⟨before, since, rfl, fun other hother =>
        hsince other (List.mem_append_left _ hother)⟩,
        hsince call (List.mem_append_right _ (List.mem_singleton_self call))⟩
  · rintro (rfl | ⟨⟨before, since, rfl, hsince⟩, hlast⟩)
    · exact ⟨calls, [], rfl, nofun⟩
    · refine ⟨before, since ++ [call], by rw [List.append_assoc, List.cons_append], ?_⟩
      intro other hother
      rcases List.mem_append.1 hother with hother | hother
      · exact hsince other hother
      · rw [List.mem_singleton.1 hother]
        exact hlast

/-- **Who holds an identity is told by the calls**: the session that came in under it last, if no
call since was such as to take it away. -/
theorem holder_after_eq_some_iff (owner : Session → String) (calls : List Call) :
    (after owner .empty calls).holder identity = some session
      ↔ owner session = identity ∧ Remains owner calls session := by
  induction calls using List.reverseRecOn generalizing identity session with
  | nil =>
      refine iff_of_false nofun ?_
      rintro ⟨-, before, since, heq, -⟩
      cases before <;> cases heq
  | append_singleton calls call ih =>
      rw [after_concat, holder_handle_eq_some_iff, ih, remains_concat_iff]
      constructor
      · rintro (⟨hcall, howner⟩ | ⟨⟨rfl, hremains⟩, hkept⟩)
        · exact ⟨howner, Or.inl hcall⟩
        · exact ⟨rfl, Or.inr ⟨hremains, hkept⟩⟩
      · rintro ⟨rfl, hcall | ⟨hremains, hkept⟩⟩
        · exact Or.inl ⟨hcall, rfl⟩
        · exact Or.inr ⟨⟨rfl, hremains⟩, hkept⟩

theorem keyed_after (owner : Session → String) (calls : List Call) :
    Keyed owner (after owner .empty calls) :=
  fun _ _ h => ((holder_after_eq_some_iff owner calls).1 h).1

theorem keyed_handle (h : Keyed owner r) (call : Call) : Keyed owner (handle owner r call).2 := by
  intro identity session hholder
  rcases holder_handle_eq_some_iff.1 hholder with ⟨-, howner⟩ | ⟨hbefore, -⟩
  · exact howner
  · exact h identity session hbefore

/-- A session that does not have its identity is found by nobody. -/
theorem Keyed.stranger (h : Keyed owner r) (hnot : r.holder (owner session) ≠ some session)
    (identity : String) : r.holder identity ≠ some session :=
  fun hholder => hnot (h identity session hholder ▸ hholder)

/-- Who lost an identity by a call has it no more, unless it is the newcomer itself. -/
theorem Keyed.gone_of_lost (h : Keyed owner r)
    (hlost : lost? (call, (handle owner r call).1) = some session)
    (hcall : call ≠ .hold session) :
    (handle owner r call).2.holder (owner session) ≠ some session := by
  obtain ⟨hholder, htakes⟩ := lost?_handle_eq_some_iff.1 hlost
  intro hstill
  rcases holder_handle_eq_some_iff.1 hstill with ⟨hnew, -⟩ | ⟨-, hkept⟩
  · exact hcall hnew
  · rw [hkept (h _ _ hholder).symm] at htakes
    cases htakes

/-- **A session that does not have its identity stays a stranger**: whatever is done, as long as it
does not come in again it gets nothing, and no answer tells of it. -/
theorem stranger_after (h : Keyed owner r) (hnot : r.holder (owner session) ≠ some session)
    (hlater : .hold session ∉ later) :
    (∀ identity, (r.after owner later).holder identity ≠ some session) ∧
      ∀ entry ∈ r.log owner later, lost? entry ≠ some session := by
  induction later generalizing r with
  | nil => exact ⟨h.stranger hnot, nofun⟩
  | cons call later ih =>
      obtain ⟨hcall, hlater⟩ := List.ne_and_not_mem_of_not_mem_cons hlater
      have hstill : (handle owner r call).2.holder (owner session) ≠ some session := by
        intro hholder
        rcases holder_handle_eq_some_iff.1 hholder with ⟨hnew, -⟩ | ⟨hbefore, -⟩
        · exact hcall hnew.symm
        · exact hnot hbefore
      obtain ⟨hholder, hlog⟩ := ih (keyed_handle h call) hstill hlater
      refine ⟨hholder, fun entry hentry => ?_⟩
      rcases List.mem_cons.1 hentry with rfl | hentry
      · exact fun hlost => h.stranger hnot _ (lost?_handle_eq_some_iff.1 hlost).1
      · exact hlog entry hentry

/-- Who is listed has an identity. -/
theorem mem_values_iff (h : Keyed owner r) :
    session ∈ r.values ↔ r.holder (owner session) = some session := by
  rw [Table.mem_values_iff]
  constructor
  · rintro ⟨identity, hholder⟩
    rwa [h identity session hholder]
  · exact fun hholder => ⟨_, hholder⟩

theorem nodup_values (h : Keyed owner r) : r.values.Nodup := by
  refine Table.pairwise_values fun identity identity' session session' hholder hholder' hne => ?_
  rintro rfl
  exact hne ((h _ _ hholder).symm.trans (h _ _ hholder'))

/-- **An identity is held by the session that came in last, and none that has lost it can take it
from another.** After any calls to an empty registry: a session has an identity just if the identity
is its own, it came in under it, and no call since was such as to take it away, be it that another
came in, that it left, or that all but another had to leave. The answer to one that comes in is who
had the identity before; to one that leaves, whether it had it; to expel, who had it, if it is not
the session to keep. A newcomer gets its identity, and whoever has one keeps it, unless the call is
about it and takes it from that session. Who lost its identity, as the answer tells, has it no more;
and a session that does not have it is found nowhere, listed nowhere and told of by no answer until
it comes in again, and when it leaves nothing changes. The registry lists just the sessions that
remain, each once, and counts the identities that are held. -/
theorem held_of_calls (owner : Session → String) (calls : List Call) :
    let r := after owner .empty calls
    (∀ identity session, r.holder identity = some session
      ↔ owner session = identity ∧ Remains owner calls session) ∧
    (∀ session, (r.handle owner (.hold session)).1 = .replaced (r.holder (owner session))) ∧
    (∀ session, (r.handle owner (.release session)).1
      = .released (decide (r.holder (owner session) = some session))) ∧
    (∀ identity keep, (r.handle owner (.expel identity keep)).1
      = .expelled ((r.holder identity).filter fun holder => holder ≠ keep)) ∧
    (∀ call identity session, (r.handle owner call).2.holder identity = some session
      ↔ call = .hold session ∧ owner session = identity ∨
        r.holder identity = some session ∧
          (call.identity owner = identity → call.takesFrom session = false)) ∧
    (∀ call session, lost? (call, (r.handle owner call).1) = some session →
      call ≠ .hold session → (r.handle owner call).2.holder (owner session) ≠ some session) ∧
    (∀ session later, r.holder (owner session) ≠ some session → .hold session ∉ later →
      let r' := r.after owner later
      (∀ identity, r'.holder identity ≠ some session) ∧ session ∉ r'.values ∧
      (∀ entry ∈ r.log owner later, lost? entry ≠ some session) ∧
      r'.handle owner (.release session) = (.released false, r')) ∧
    (∀ session, session ∈ r.values ↔ Remains owner calls session) ∧ r.values.Nodup ∧
    ∃ identities : Finset String,
      (∀ identity, identity ∈ identities ↔ (r.holder identity).isSome) ∧
      r.size = identities.card := by
  intro r
  have hkeyed : Keyed owner r := keyed_after owner calls
  refine ⟨fun _ _ => holder_after_eq_some_iff owner calls, fun _ => rfl, fun session => ?_,
    fun identity keep => ?_, fun _ _ _ => holder_handle_eq_some_iff, fun _ _ => hkeyed.gone_of_lost,
    fun session later hnot hlater => ?_, fun session => ?_, nodup_values hkeyed, r.keys.toFinset,
    fun identity => ?_, ?_⟩
  · exact congrArg Answer.released (release_fst r (owner session) session)
  · exact congrArg Answer.expelled (expel_fst r identity keep)
  · obtain ⟨hholder, hlog⟩ := stranger_after hkeyed hnot hlater
    refine ⟨hholder, fun hlisted => ?_, hlog, ?_⟩
    · obtain ⟨identity, hfound⟩ := Table.mem_values_iff.1 hlisted
      exact hholder identity hfound
    · rw [handle, release_of_ne (hholder (owner session))]
  · rw [mem_values_iff hkeyed]
    exact (holder_after_eq_some_iff owner calls).trans (and_iff_right rfl)
  · rw [List.mem_toFinset, Table.mem_keys_iff]
    rfl
  · exact Table.size_eq_card fun identity => by rw [List.mem_toFinset, Table.mem_keys_iff]

/-- An identity goes from one session to a second, and somebody comes in between. The first can
neither leave nor be found any more; the second is kept once, and has to leave the next time. -/
theorem held_of_calls_replaced :
    let owner : Session → String := fun session => if session = 5 then "bob" else "ann"
    let r := after owner .empty [.hold 3, .hold 5, .hold 4]
    let later : List Call := [.release 3, .expel "ann" 4, .expel "ann" 3, .release 4]
    r.holder "ann" = some 4 ∧ r.values = [5, 4] ∧ r.size = 2 ∧
      (r.handle owner (.hold 6)).1 = .replaced (some 4) ∧
      (r.log owner later).map lost? = [none, none, some 4, none] ∧
      (r.after owner later).holder "ann" = none ∧
      (r.after owner later).handle owner (.release 3) = (.released false, r.after owner later) := by
  intro owner r later
  obtain ⟨hheld, hhold, -, -, -, -, hstranger, -⟩ := held_of_calls owner [.hold 3, .hold 5, .hold 4]
  have hann : r.holder "ann" = some 4 := by
    refine (hheld "ann" 4).2 ⟨by decide, [.hold 3, .hold 5], [], rfl, nofun⟩
  have hgone : r.holder (owner 3) ≠ some 3 := by
    rw [show owner 3 = "ann" from rfl, hann]
    decide
  obtain ⟨-, -, -, hleave⟩ := hstranger 3 later hgone (by decide)
  refine ⟨hann, by decide, by decide, ?_, by decide, by decide, hleave⟩
  exact (hhold 6).trans (congrArg Answer.replaced hann)

end Registry

end Switchboard
