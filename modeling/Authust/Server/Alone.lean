import Authust.Server.Advance

/-! # Calls served one after another

An entry of the log of a serial run belongs to one call, which has been alone since it
began. So nothing comes between what it has read and what it does.
-/

namespace Authust

open Coop Coop.Task Coop.Machine

variable {X : Externals} {start state : World X} {runs first : List (Call X × Reply X)}
  {past mine tail : Log X} {entry : Logged (sig X) (World X)} {call : Call X} {reply : Reply X}

/-- The entry after `past` was logged by `call`, after `mine` and as the first calls had left
the state. -/
structure Within (start : World X) (runs first : List (Call X × Reply X)) (past mine tail : Log X)
    (entry : Logged (sig X) (World X)) (call : Call X) (reply : Reply X) : Prop where
  mem : (call, reply) ∈ runs
  callAt : callAt runs entry.who = call
  who : entry.who = reply.who
  number : reply.who = first.length
  earlier : OneByOne start first reply.before
  past_eq : past = logOf first ++ mine
  log_eq : reply.log = mine ++ entry :: tail
  serves : (server X).Serves (handle X call) reply
  chain : (server X).Chain reply.who reply.before mine entry.before

theorem within_of_reply (hrun : OneByOne start runs state) {second : List (Call X × Reply X)}
    (hruns : runs = first ++ (call, reply) :: second) (hreply : reply.log = mine ++ entry :: tail) :
    Within start runs first (logOf first ++ mine) mine tail entry call reply := by
  obtain ⟨hearlier, hnumber, hserves⟩ := hrun.request hruns
  have hchain := hserves.chain
  rw [hreply] at hchain
  obtain ⟨hwho, hmine, _⟩ := hchain.entry
  have hcall : callAt runs entry.who = call := by
    rw [hruns, hwho, hnumber, callAt_append]
  exact ⟨by simp [hruns], hcall, hwho, hnumber, hearlier, rfl, hreply, hserves, hmine⟩

theorem within_of_log (hrun : OneByOne start runs state) {rest : Log X}
    (hlog : logOf runs = past ++ entry :: rest) : ∃ first call reply mine tail,
      Within start runs first past mine tail entry call reply := by
  obtain ⟨first, call, reply, second, mine, tail, hruns, rfl, hreply, _⟩ := hrun.entry hlog
  exact ⟨first, call, reply, mine, tail, within_of_reply hrun hruns hreply⟩

/-- Every operation of a served call was justified by what it had been answered before. -/
theorem served_justified (hserves : (server X).Serves (handle X call) reply)
    {past tail : History X} {event : Event (sig X)}
    (hevents : reply.log.map Logged.event = past ++ event :: tail) :
    Justified call past event.op := by
  obtain ⟨rest, hpath, _⟩ := hserves.stops
  rw [hevents] at hpath
  obtain ⟨stop, hprefix, hstop⟩ := hpath.split
  cases hstop with
  | step _ => exact justified_of_path hprefix

/-- Where an entry of a reply stands in the log of the run. -/
theorem logOf_of_reply {second : List (Call X × Reply X)}
    (hruns : runs = first ++ (call, reply) :: second) (hreply : reply.log = mine ++ entry :: tail) :
    logOf runs = (logOf first ++ mine) ++ entry :: (tail ++ logOf second) := by
  rw [hruns, logOf_append, logOf_cons, hreply]
  simp

section Within

variable (hwithin : Within start runs first past mine tail entry call reply)

include hwithin

theorem Within.mine_who : ∀ other ∈ mine, other.who = entry.who := by
  rw [hwithin.who]
  exact hwithin.chain.who_eq

/-- All that the call has done so far. -/
theorem Within.own_eq : own entry.who past = mine.map Logged.event := by
  have hfresh : own entry.who (logOf first) = [] :=
    hwithin.earlier.own_fresh (Nat.le_of_eq (hwithin.who.trans hwithin.number).symm)
  rw [hwithin.past_eq, own_append, hfresh, List.nil_append, hwithin.who, hwithin.chain.own_eq]

theorem Within.exec : ∃ after, (server X).Exec entry.who entry.before entry.event after := by
  have hchain := hwithin.serves.chain
  rw [hwithin.log_eq] at hchain
  obtain ⟨hwho, _, after, hexec, _⟩ := hchain.entry
  rw [← hwho] at hexec
  exact ⟨after, hexec⟩

theorem Within.justified : Justified call (mine.map Logged.event) entry.event.op := by
  have hevents : reply.log.map Logged.event =
      mine.map Logged.event ++ entry.event :: tail.map Logged.event := by
    rw [hwithin.log_eq, List.map_append, List.map_cons]
  exact served_justified hwithin.serves hevents

/-- What the call knows of the current entry is not spoiled by the calls before it. -/
theorem Within.heldEntry_eq (e : ExecId) : heldEntry entry.who e past =
    (mine.map Logged.event).foldl (knownNext e) (heldEntry entry.who e (logOf first)) := by
  rw [heldEntry, hwithin.past_eq, List.foldl_append, foldl_heldNext hwithin.mine_who]
  rfl

end Within

theorem served_unshared (hstart : start.Initial) (hrun : OneByOne start runs state) :
    Unshared (logOf runs) := by
  intro past entry rest hlog
  obtain ⟨first, call, reply, mine, tail, hwithin⟩ := within_of_log hrun hlog
  have hplaced := (served_placed hstart hrun).2 past entry rest hlog
  unfold unshared
  split
  next e hop =>
    have hjustified := hwithin.justified
    rw [hop] at hjustified
    rcases hjustified.completes with hseen | ⟨index, _, hknown⟩
    · obtain ⟨found, hfound, hevent⟩ := List.mem_map.mp hseen
      have hmem : found ∈ past := by
        rw [hwithin.past_eq]
        exact List.mem_append_right _ hfound
      obtain ⟨execution, hheap, hcompleted⟩ := hplaced.completed found hmem e hevent
      simp [hheap, hcompleted]
    · rw [hwithin.heldEntry_eq, hknown]
      simp
  next => rfl

/-- One after another, calls advance only what they have handled. -/
theorem served_advancesHandled (hstart : start.Initial) (hrun : OneByOne start runs state) :
    AdvancesHandled (callAt runs) (logOf runs) := by
  have hissued : IssuedBy (callAt runs) (logOf runs) :=
    (hrun.preserves placed_preserved (placed_initial hstart) (handle_callAt hrun)).2
  exact advancesHandled_of_unshared hissued (served_placed hstart hrun).2
    (served_unshared hstart hrun)

end Authust
