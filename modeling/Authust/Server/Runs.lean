import Authust.Server.Effects
import Authust.Server.Discipline

/-! # Runs of the server

The server under any interleaving of any calls, and the calls served one after another.
Justifications of single operations are carried over to the entries of a log.
-/

namespace Authust

open Coop Coop.Task Coop.Machine

variable (X : Externals)

/-- The server with the most permissive surroundings. -/
abbrev server : Machine (sig X) (World X) Choice := machine X Surroundings

abbrev Log := List (Logged (sig X) (World X))

variable {X}

/-- Configurations that calls reach when they interleave at their await points. -/
abbrev Interleaved (calls : Nat → Call X) (start : World X)
    (config : Config (sig X) (World X) (Except ApiErrorKind Response)) : Prop :=
  (server X).Reachable (fun who => handle X (calls who)) start config

/-- How one call was served. -/
abbrev Reply (X : Externals) := Served (sig X) (World X) (Except ApiErrorKind Response)

/-- Calls served one after another. -/
abbrev OneByOne (start : World X) (runs : List (Call X × Reply X)) (state : World X) : Prop :=
  (server X).Serial (handle X) start runs state

/-- The calls of a serial run by their number. -/
def callAt (runs : List (Call X × Reply X)) (who : Nat) : Call X :=
  match runs[who]? with
  | some run => run.1
  | none => .admin none

theorem callAt_append {first second : List (Call X × Reply X)} {run : Call X × Reply X} :
    callAt (first ++ run :: second) first.length = run.1 := by
  simp [callAt]

theorem callAt_who {start state : World X} {runs : List (Call X × Reply X)}
    (hrun : (server X).Serial (handle X) start runs state) {run : Call X × Reply X}
    (hmem : run ∈ runs) : callAt runs run.2.who = run.1 := by
  obtain ⟨first, second, rfl⟩ := List.append_of_mem hmem
  rw [(hrun.request rfl).2.1, callAt_append]

theorem handle_callAt {start state : World X} {runs : List (Call X × Reply X)}
    (hrun : (server X).Serial (handle X) start runs state) :
    ∀ run ∈ runs, handle X run.1 = handle X (callAt runs run.2.who) := by
  intro run hmem
  rw [callAt_who hrun hmem]

abbrev IssuedBy (calls : Nat → Call X) (log : Log X) : Prop :=
  Issued (server X) (fun who => handle X (calls who)) log

abbrev desk : Private (server X) (Desk X) := privateDesk id

/-- An operation that a task issues when it runs by itself. -/
theorem alone_op_bind {α : Type} {op : Op X} {f : op.Res → Task (sig X) α} {who : Nat}
    {w after : World X} {answer : op.Res} (hexec : exec X who op .normal w = some (answer, after)) :
    (server X).alone who .normal (Authust.op op >>= f) w =
      (server X).alone who .normal (f answer) after := by
  have hexec' : (server X).exec who op .normal w = some (answer, after) := hexec
  simp [hexec']

theorem alone_op_bind_none {α : Type} {op : Op X} {f : op.Res → Task (sig X) α} {who : Nat}
    {w : World X} (hexec : exec X who op .normal w = none) :
    (server X).alone who .normal (Authust.op op >>= f) w = none := by
  have hexec' : (server X).exec who op .normal w = none := hexec
  simp [hexec']

theorem alone_panic_bind {α β : Type} {message : String} {f : α → Task (sig X) β} {who : Nat}
    {w : World X} :
    (server X).alone who .normal ((panic message : Task (sig X) α) >>= f) w = none := by
  rw [panic, bind_assoc]
  exact alone_op_bind_none rfl

theorem alone_panic {α : Type} {message : String} {who : Nat} {w : World X} :
    (server X).alone who .normal (panic message : Task (sig X) α) w = none :=
  alone_op_bind_none rfl

section Issued

variable {calls : Nat → Call X} {first second log : Log X} {entry : Logged (sig X) (World X)}

theorem issued_justified (hissued : IssuedBy calls (first ++ entry :: second)) :
    Justified (calls entry.who) (own entry.who first) entry.event.op := by
  obtain ⟨⟨next, hpath⟩, _⟩ := hissued first entry second rfl
  exact justified_of_path hpath

theorem own_mono {who : Nat} {event : Event (sig X)} (hmem : event ∈ own who first) :
    event ∈ own who (first ++ second) := by
  rw [own_append]
  exact List.mem_append_left _ hmem

/-- A remembered event of a call is an executed entry of the log. -/
theorem executed_of_own (hexecuted : (server X).Executed log) {who : Nat} {event : Event (sig X)}
    (hmem : event ∈ own who log) :
    ∃ before after, ⟨who, before, event⟩ ∈ log ∧ (server X).Exec who before event after := by
  obtain ⟨⟨who', before, event'⟩, hlog, rfl, rfl⟩ := mem_own.mp hmem
  obtain ⟨after, hexec⟩ := hexecuted _ hlog
  exact ⟨before, after, hlog, hexec⟩

end Issued

section Samples

/-! Tables and calls for runs under `Externals.plain`. -/

def sampleUser (uid : Uuid) (name password : String) (administrator : Bool) : UserRow where
  uid := uid
  name := name
  email := none
  password := password
  passwordChangeDate := 0
  administrator := administrator

def sampleStage (uid : Int) (slug : String) (kind : StageKind) : Stage where
  uid := uid
  slug := slug
  kind := kind
  timeout := 60

def sampleEntry (uid : Int) (bindings : List FlowBinding) : FlowEntry where
  ordering := 0
  bindings := bindings
  stage := .uid uid

def sampleFlow (entries : List FlowEntry) : Flow where
  uid := 0
  slug := "login"
  title := "Login"
  designation := .authentication
  authentication := .ignored
  bindings := []
  entries := entries

/-- A member, an administrator and a session that nobody has logged in to. -/
def sampleWorld (entries : List FlowEntry) (stages : List Stage) (policies : List Policy) :
    World Externals.plain :=
  .boot Externals.plain [sampleUser 1 "member" "tulip" false, sampleUser 2 "admin" "orchid" true]
    [("s", none)] [sampleFlow entries] stages policies

/-- An identification form with a password field, followed by the login; each entry with its
bindings. -/
def oneFormBound (first second : List FlowBinding) (policies : List Policy) :
    World Externals.plain :=
  sampleWorld [sampleEntry 0 first, sampleEntry 2 second]
    [sampleStage 0 "identification" (.identification (some (.uid 1)) [.name]),
      sampleStage 1 "password" (.password [.internal]), sampleStage 2 "login" .userLogin] policies

def oneForm : World Externals.plain := oneFormBound [] [] []

/-- An identification form and a password form, followed by the login. -/
def twoForms : World Externals.plain :=
  sampleWorld [sampleEntry 0 [], sampleEntry 1 [], sampleEntry 2 []]
    [sampleStage 0 "identification" (.identification none [.name]),
      sampleStage 1 "password" (.password [.internal]), sampleStage 2 "login" .userLogin] []

def sampleRequest (form : List (String × String)) : Request Externals.plain where
  cookie := some (newClaims "s")
  flowSlug := "login"
  uri := "/flow/login"
  host := some "localhost"
  next := none
  form := some (.object (form.map fun field => (field.1, .string field.2)))

def sampleGet : Call Externals.plain := .getFlow (sampleRequest [])

def samplePost (form : List (String × String)) : Call Externals.plain :=
  .postFlow (sampleRequest form)

def memberLogin : Call Externals.plain :=
  samplePost [("uid", "member"), ("password", "tulip")]

/-- Run a schedule from the start. -/
def sampleRun (start : World Externals.plain) (calls : Nat → Call Externals.plain)
    (schedule : List (Act Choice)) :
    Option (Config (sig Externals.plain) (World Externals.plain) (Except ApiErrorKind Response)) :=
  (server Externals.plain).acts
    ⟨start, fun who => .running (handle Externals.plain (calls who)), []⟩ schedule

theorem sampleRun_interleaved {start : World Externals.plain}
    {calls : Nat → Call Externals.plain} {schedule : List (Act Choice)}
    {config : Config (sig Externals.plain) (World Externals.plain) (Except ApiErrorKind Response)}
    (hrun : sampleRun start calls schedule = some config) : Interleaved calls start config :=
  Reachable.acts .start schedule hrun

def undisturbed (_ : Nat) : Turn Choice := ⟨.normal, .never⟩

/-- Serve calls one after another, undisturbed. -/
def sampleServe (start : World Externals.plain) (calls : List (Call Externals.plain)) :
    List (Call Externals.plain × Reply Externals.plain) × World Externals.plain :=
  (server Externals.plain).serveAll (handle Externals.plain) start
    (calls.map fun call => (call, undisturbed))

theorem sampleServe_oneByOne (start : World Externals.plain) (calls : List (Call Externals.plain)) :
    OneByOne start (sampleServe start calls).1 (sampleServe start calls).2 :=
  serveAll_serial _ _ _

end Samples

end Authust
