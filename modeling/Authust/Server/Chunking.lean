import Authust.Coop.Pause
import Authust.Server.Csrf
import Authust.Server.PolicyCreation

/-! # How a body is cut

The body of an expression comes in chunks, and the loop over them may stop in the middle. What is
made of the body depends on its bytes alone: the chunks decide only how often the request waits.
-/

namespace Authust

open Coop Coop.Task Coop.Machine Postgres

/-- The bytes of the chunks, one after another. -/
def body (chunks : List ByteArray) : ByteArray :=
  chunks.foldl (· ++ ·) .empty

/-- `isize::MAX`, which no slice is longer than. -/
def isizeMax : Nat := usizeModulus / 2 - 1

theorem body_append_singleton (chunks : List ByteArray) (chunk : ByteArray) :
    body (chunks ++ [chunk]) = body chunks ++ chunk := by
  rw [body, List.foldl_append]
  rfl

theorem size_le_foldl (chunks : List ByteArray) (bytes : ByteArray) :
    bytes.size ≤ (chunks.foldl (· ++ ·) bytes).size := by
  induction chunks generalizing bytes with
  | nil => exact le_rfl
  | cons chunk rest ih =>
      have hchunk : bytes.size ≤ (bytes ++ chunk).size := by
        rw [ByteArray.size_append]
        omega
      exact hchunk.trans (ih (bytes ++ chunk))

variable (X : Externals)

/-- The wait for the next chunk. -/
def chunkPause : (storeMachine X).Pause where
  op := .inr .nextChunk
  answer := ()
  isPause := fun
    | .inr .nextChunk => true
    | _ => false
  isPause_iff := by
    rintro (op | op)
    · simp
    · cases op <;> simp
  suspends := rfl
  exec := fun _ _ _ => rfl

section Loop

/-- What the loop makes of a whole body. -/
def readWhole (bytes : ByteArray) : Except PolicyResponse ByteArray :=
  if bytes.size ≤ maxExpressionLen then .ok bytes
  else .error (.text 413 "Request body too large")

theorem readBody_nil (bytes : ByteArray) :
    (readBody X [] bytes).run = .call (.inr .nextChunk) fun _ => done (.ok (.ok bytes)) := rfl

/-- A turn of the loop: the test comes before the chunk is appended. -/
theorem readBody_cons (chunk bytes : ByteArray) (rest : List (Except Unit ByteArray)) :
    (readBody X (.ok chunk :: rest) bytes).run = .call (.inr .nextChunk) fun _ =>
      if bytes.size + chunk.size ≤ maxExpressionLen then (readBody X rest (bytes ++ chunk)).run
      else done (.ok (.error (.text 413 "Request body too large"))) := by
  have hturn : (readBody X (.ok chunk :: rest) bytes).run = .call (.inr .nextChunk) fun _ =>
      (if bytes.size + chunk.size > maxExpressionLen then
        pure (.error (.text 413 "Request body too large"))
      else readBody X rest (bytes ++ chunk)).run := rfl
  rw [hturn]
  congr 1
  funext _
  by_cases hfits : bytes.size + chunk.size ≤ maxExpressionLen
  · rw [if_neg (Nat.not_lt.mpr hfits), if_pos hfits]
  · rw [if_pos (Nat.not_le.mp hfits), if_neg hfits]
    rfl

/-- The loop waits, at least once, and makes of the chunks what it makes of the whole. -/
theorem readBody_eq (chunks : List ByteArray) (bytes : ByteArray)
    (hbytes : bytes.size ≤ maxExpressionLen) :
    ∃ waits, (readBody X (chunks.map .ok) bytes).run =
      times (chunkPause X).op (waits + 1) >>= fun _ =>
        done (.ok (readWhole (chunks.foldl (· ++ ·) bytes))) := by
  induction chunks generalizing bytes with
  | nil =>
      refine ⟨0, ?_⟩
      rw [List.map_nil, readBody_nil, List.foldl_nil, readWhole, if_pos hbytes]
      rfl
  | cons chunk rest ih =>
      rw [List.map_cons, readBody_cons, List.foldl_cons]
      by_cases hfits : bytes.size + chunk.size ≤ maxExpressionLen
      · obtain ⟨waits, hrest⟩ := ih (bytes ++ chunk) (by rwa [ByteArray.size_append])
        refine ⟨waits + 1, ?_⟩
        simp only [if_pos hfits, hrest]
        rfl
      · -- what comes after the chunk cannot make the body short enough
        have hlong : ¬(rest.foldl (· ++ ·) (bytes ++ chunk)).size ≤ maxExpressionLen := by
          have hsize := size_le_foldl rest (bytes ++ chunk)
          rw [ByteArray.size_append] at hsize
          omega
        refine ⟨0, ?_⟩
        simp only [if_neg hfits, readWhole, if_neg hlong]
        rfl

/-- Where the loop stands before it waits for the next chunk. -/
structure Reading (chunks : List ByteArray) where
  consumed : List ByteArray
  remaining : List ByteArray
  split : consumed ++ remaining = chunks
  fits : (body consumed).size ≤ maxExpressionLen

variable {chunks : List ByteArray}

namespace Reading

def start (chunks : List ByteArray) : Reading chunks where
  consumed := []
  remaining := chunks
  split := rfl
  fits := by decide

/-- The buffer. -/
def bytes (reading : Reading chunks) : ByteArray := body reading.consumed

/-- What the loop has left to do. -/
def task (reading : Reading chunks) :
    Task (storeSig X) (Except ApiErrorKind (Except PolicyResponse ByteArray)) :=
  (readBody X (reading.remaining.map .ok) reading.bytes).run

/-- One more turn of the loop, over a chunk that fits. -/
def extend (reading : Reading chunks) {chunk : ByteArray} {rest : List ByteArray}
    (hremaining : reading.remaining = chunk :: rest)
    (hfits : reading.bytes.size + chunk.size ≤ maxExpressionLen) : Reading chunks where
  consumed := reading.consumed ++ [chunk]
  remaining := rest
  split := by
    rw [List.append_assoc, List.singleton_append, ← hremaining]
    exact reading.split
  fits := by
    rw [body_append_singleton, ByteArray.size_append]
    exact hfits

/-- The test in the loop is made without an overflow. -/
theorem no_overflow (reading : Reading chunks) {chunk : ByteArray}
    (hchunk : chunk.size ≤ isizeMax) :
    reading.bytes.size + chunk.size < usizeModulus := by
  have hbytes : reading.bytes.size ≤ maxExpressionLen := reading.fits
  have hmax : maxExpressionLen + isizeMax < usizeModulus := by decide
  omega

/-- A turn of the loop ends it, or takes in the chunk. -/
theorem task_cases (reading : Reading chunks) :
    (∃ value, reading.task X = .call (.inr .nextChunk) fun _ => done value) ∨
      ∃ later : Reading chunks, later.consumed.length = reading.consumed.length + 1 ∧
        reading.task X = .call (.inr .nextChunk) fun _ => later.task X := by
  cases hremaining : reading.remaining with
  | nil =>
      refine Or.inl ⟨.ok (.ok reading.bytes), ?_⟩
      rw [task, hremaining]
      rfl
  | cons chunk rest =>
      by_cases hfits : reading.bytes.size + chunk.size ≤ maxExpressionLen
      · refine Or.inr ⟨reading.extend hremaining hfits, by simp [extend], ?_⟩
        have hbytes : (reading.extend hremaining hfits).bytes = reading.bytes ++ chunk :=
          body_append_singleton _ _
        rw [task, hremaining, List.map_cons, readBody_cons, task, hbytes]
        simp only [if_pos hfits]
        rfl
      · refine Or.inl ⟨.ok (.error (.text 413 "Request body too large")), ?_⟩
        rw [task, hremaining, List.map_cons, readBody_cons]
        simp only [if_neg hfits]

/-- Wherever the loop has come to, it is over, or before a chunk with all that it has consumed. -/
theorem path (reading : Reading chunks) {history : List (Event (storeSig X))}
    {rest : Task (storeSig X) (Except ApiErrorKind (Except PolicyResponse ByteArray))}
    (hpath : Path (reading.task X) history rest) :
    (∃ value, rest = done value) ∨ ∃ later : Reading chunks,
      later.consumed.length = reading.consumed.length + history.length ∧ rest = later.task X := by
  induction history generalizing reading with
  | nil =>
      refine Or.inr ⟨reading, rfl, ?_⟩
      generalize reading.task X = task at hpath ⊢
      cases hpath
      rfl
  | cons event history ih =>
      rcases reading.task_cases X with ⟨value, htask⟩ | ⟨later, hlength, htask⟩
      · rw [htask] at hpath
        cases hpath with
        | step hpath => exact Or.inl ⟨value, (path_done.mp hpath).2⟩
      · rw [htask] at hpath
        cases hpath with
        | step hpath =>
            rcases ih later hpath with hdone | ⟨last, hlast, hrest⟩
            · exact Or.inl hdone
            · refine Or.inr ⟨last, ?_, hrest⟩
              rw [hlast, hlength, List.length_cons]
              omega

end Reading

end Loop

variable {X}

/-- `create_expression` behind the loop. -/
def validateExpression (E : PolicyEngine X) (slug : String) (bytes : ByteArray) :
    StoreHandler X PolicyResponse :=
  match String.fromUTF8? bytes with
  | none => pure (.text 400 "Requset body must be utf8")
  | some expression =>
      let expression := E.encodeBase64 expression
      match E.compile expression with
      | .error .invalidBase64 => pure (.empty 500)
      | .error (.parse error) => pure (.text 400 error)
      | .ok _ => do
          let created ← createPolicy X slug (.expression expression)
          commitTransaction X
          pure (.json created)

/-- What is to be done with a body that comes as a whole, after some waits for it. -/
def uploadExpression (E : PolicyEngine X) (slug : String) (waits : Nat) (bytes : ByteArray) :
    StoreHandler X PolicyResponse := do
  connection X
  beginTransaction X
  ExceptT.lift (times (chunkPause X).op waits)
  if bytes.size ≤ maxExpressionLen then validateExpression E slug bytes
  else pure (.text 413 "Request body too large")

def uploadTask (E : PolicyEngine X) (slug : String) (waits : Nat) (bytes : ByteArray) :
    Task (storeSig X) (StoreReply X) :=
  StoreReply.response <$> (uploadExpression E slug waits bytes).run

section Upload

variable (E : PolicyEngine X) (slug : String)

theorem createExpression_eq (chunks : List ByteArray) :
    ∃ waits, createExpression E slug (chunks.map .ok) =
      uploadExpression E slug (waits + 1) (body chunks) := by
  obtain ⟨waits, hrun⟩ := readBody_eq X chunks .empty (by decide)
  have hread : readBody X (chunks.map .ok) .empty =
      ExceptT.lift (times (chunkPause X).op (waits + 1)) >>= fun _ =>
        pure (readWhole (body chunks)) := by
    apply ExceptT.ext
    rw [hrun, run_lift_bind]
    rfl
  refine ⟨waits, ?_⟩
  rw [createExpression, uploadExpression, hread, readWhole]
  simp only [bind_assoc, pure_bind]
  by_cases hfits : (body chunks).size ≤ maxExpressionLen
  · simp only [if_pos hfits]
    rfl
  · simp only [if_neg hfits]

theorem handleStore_createExpression (chunks : List ByteArray) :
    ∃ waits, handleStore E (.createExpression slug (chunks.map .ok)) =
      uploadTask E slug (waits + 1) (body chunks) := by
  obtain ⟨waits, heq⟩ := createExpression_eq E slug chunks
  exact ⟨waits, by rw [handleStore, heq, uploadTask]⟩

theorem matches_uploadTask (bytes : ByteArray) (first second : Nat) :
    (chunkPause X).Matches (uploadTask E slug (first + 1) bytes)
      (uploadTask E slug (second + 1) bytes) := by
  apply Pause.Matches.map
  apply Pause.Matches.run_bind
  intro _
  apply Pause.Matches.run_bind
  intro _
  rw [run_lift_bind, run_lift_bind]
  exact .pauses (.refl _)

/-- The operations up to the end of the body: none of them writes. -/
def awaitsBody : (storeSig X).Op → Bool
  | .inl .connection => true
  | .inl .transaction => true
  | .inr .nextChunk => true
  | _ => false

variable {E slug} {bytes : ByteArray} (hlong : maxExpressionLen < bytes.size)
include hlong

theorem avoids_uploadExpression (waits : Nat) :
    Avoids (fun op => awaitsBody op = false) (uploadExpression E slug waits bytes).run := by
  apply Avoids.run_bind (avoids_perform rfl)
  intro _
  apply Avoids.run_bind (avoids_perform rfl)
  intro _
  rw [run_lift_bind, if_neg (Nat.not_le.mpr hlong)]
  induction waits with
  | zero => exact avoids_done
  | succ waits ih => exact ⟨nofun, fun _ => ih⟩

theorem ensures_uploadExpression {who : Nat} {always : StoreWorld X → Prop} {state : StoreWorld X}
    (hnow : always state) (hbegun : always { state with working := some state.committed })
    (waits : Nat) :
    (storeMachine X).Ensures who always (uploadExpression E slug waits bytes).run
      (succeeds fun _ _ => True) state := by
  refine (ensures_connection hnow ?_).andThen
  refine (ensures_beginTransaction hnow hbegun ?_).andThen
  rw [run_lift_bind, if_neg (Nat.not_le.mpr hlong)]
  induction waits with
  | zero => exact ensures_pure hbegun trivial
  | succ waits ih =>
      refine ⟨hbegun, fun answer after hexec => ?_⟩
      rw [storeExec_nextChunk hexec]
      exact ih

theorem trace_uploadExpression {waits : Nat} {history : List (Event (storeSig X))}
    {result : Except ApiErrorKind PolicyResponse}
    (htrace : Trace (uploadExpression E slug waits bytes).run history result) :
    result = .ok (.text 413 "Request body too large") ∨ ∃ error, result = .error error ∧
      (⟨.inl .connection, .error error⟩ ∈ history ∨
        ⟨.inl .transaction, .error error⟩ ∈ history) := by
  rw [uploadExpression, if_neg (Nat.not_le.mpr hlong), run_bind] at htrace
  obtain ⟨first, connected, second, hfirst, hsecond, rfl⟩ := trace_bind.mp htrace
  obtain rfl := trace_perform.mp hfirst
  cases connected with
  | error error =>
      obtain ⟨rfl, rfl⟩ := trace_done.mp hsecond
      exact Or.inr ⟨error, rfl, Or.inl (by simp)⟩
  | ok connected =>
      dsimp only at hsecond
      rw [run_bind] at hsecond
      obtain ⟨third, begun, fourth, hthird, hfourth, rfl⟩ := trace_bind.mp hsecond
      obtain rfl := trace_perform.mp hthird
      cases begun with
      | error error =>
          obtain ⟨rfl, rfl⟩ := trace_done.mp hfourth
          exact Or.inr ⟨error, rfl, Or.inr (by simp)⟩
      | ok begun =>
          dsimp only at hfourth
          rw [run_lift_bind] at hfourth
          obtain ⟨_, _, _, _, hlast, rfl⟩ := trace_bind.mp hfourth
          obtain ⟨rfl, rfl⟩ := trace_done.mp hlast
          exact Or.inl rfl

omit hlong

/-- To wait for the body does not panic. -/
theorem storeExec_ne_none {op : (storeSig X).Op} (hop : awaitsBody op = true) (who : Nat)
    (choice : StoreChoice) (state : StoreWorld X) :
    (storeMachine X).exec who op choice state ≠ none := by
  unfold awaitsBody at hop
  split at hop
  · simp only [storeMachine, storeExec, exec]
    split <;> simp
  · simp only [storeMachine, storeExec]
    split <;> simp
  · simp [storeMachine, storeExec]
  · cases hop

/-- A body that is too long is answered with 413, and nothing is written on the way. -/
structure TurnedAway (served : Served (storeSig X) (StoreWorld X) (StoreReply X)) : Prop where
  committed : served.after.committed = served.before.committed
  events : ∀ entry ∈ served.log, awaitsBody entry.event.op = true
  ending : served.ending = .dropped ∨
    served.ending = .returned (.response (.ok (.text 413 "Request body too large"))) ∨
      ∃ error, served.ending = .returned (.response (.error error)) ∧
        (⟨.inl .connection, .error error⟩ ∈ served.log.map Logged.event ∨
          ⟨.inl .transaction, .error error⟩ ∈ served.log.map Logged.event)

theorem turnedAway_uploadTask {waits : Nat} (hlong : maxExpressionLen < bytes.size)
    {served : Served (storeSig X) (StoreWorld X) (StoreReply X)}
    (hserves : (storeMachine X).Serves (uploadTask E slug waits bytes) served) :
    TurnedAway served := by
  have havoids : Avoids (fun op => awaitsBody op = false) (uploadTask E slug waits bytes) := by
    rw [uploadTask, map_eq_pure_bind]
    exact (avoids_uploadExpression hlong waits).bind fun _ => avoids_done
  have hensures : (storeMachine X).Ensures served.who
      (fun state => state.committed = served.before.committed)
      (uploadExpression E slug waits bytes).run (succeeds fun _ _ => True) served.before := by
    apply ensures_uploadExpression hlong <;> rfl
  obtain ⟨rest, hpath, hstops⟩ := hserves.stops
  refine ⟨(hensures.map.serves hserves).1, ?_, ?_⟩
  · intro entry hentry
    have hevent := havoids.path hpath entry.event (List.mem_map_of_mem hentry)
    simpa using hevent
  · have hrest := havoids.rest hpath
    generalize served.log = log at hstops hpath ⊢
    generalize served.ending = ending at hstops ⊢
    cases hstops with
    | @panicked op next _ _ choice hpanicked =>
        have hop : awaitsBody op = true := by simpa using hrest.1
        exact absurd hpanicked (storeExec_ne_none hop _ _ _)
    | waiting | answered => exact Or.inl rfl
    | @returned reply =>
        obtain ⟨result, htrace, rfl⟩ := trace_map.mp hpath
        rcases trace_uploadExpression hlong htrace with rfl | ⟨error, rfl, hevent⟩
        · exact Or.inr (Or.inl rfl)
        · exact Or.inr (Or.inr ⟨error, rfl, hevent⟩)

/-- Requests that differ at most in how the body is cut. -/
inductive Recut : StoreRequest → StoreRequest → Prop
  | same (request : StoreRequest) : Recut request request
  | expression (slug : String) {chunks chunks' : List ByteArray} : body chunks = body chunks' →
      Recut (.createExpression slug (chunks.map .ok)) (.createExpression slug (chunks'.map .ok))

theorem Recut.matches {request request' : StoreRequest} (hrecut : Recut request request') :
    (chunkPause X).Matches (handleStore E request) (handleStore E request') := by
  cases hrecut with
  | same => exact .refl _
  | @expression slug chunks chunks' hbody =>
      obtain ⟨first, hfirst⟩ := handleStore_createExpression E slug chunks
      obtain ⟨second, hsecond⟩ := handleStore_createExpression E slug chunks'
      rw [hfirst, hsecond, hbody]
      exact matches_uploadTask E slug (body chunks') first second

end Upload

/-- An expression is made of its whole body, or turned away with 413 and without a write; a body
that is cut otherwise is served alike, on its own and in every run; and the buffer never holds
more than the limit, so that no sum in the test overflows. -/
theorem createExpression_chunking (E : PolicyEngine X) :
    (∀ slug chunks, ∃ waits, createExpression E slug (chunks.map .ok) =
      uploadExpression E slug (waits + 1) (body chunks)) ∧
    (∀ slug chunks served, maxExpressionLen < (body chunks).size →
      (storeMachine X).Serves (handleStore E (.createExpression slug (chunks.map .ok))) served →
        TurnedAway served) ∧
    (∀ request request' served, Recut request request' →
      (storeMachine X).Serves (handleStore E request) served → ∃ served',
        (storeMachine X).Serves (handleStore E request') served' ∧
          (chunkPause X).Alike served served') ∧
    (∀ start runs state requests, (storeMachine X).Serial (handleStore E) start runs state →
      List.Forall₂ (fun request run => Recut (Prod.fst run) request) requests runs → ∃ runs',
        (storeMachine X).Serial (handleStore E) start runs' state ∧
          runs'.map Prod.fst = requests ∧
            List.Forall₂ (fun run run' => (chunkPause X).Alike (Prod.snd run) (Prod.snd run'))
              runs runs') ∧
    ∀ chunks history rest, Path (readBody X (chunks.map .ok) .empty).run history rest →
      (∃ value, rest = done value) ∨ ∃ reading : Reading chunks,
        reading.consumed.length = history.length ∧ rest = reading.task X ∧
          reading.bytes.size ≤ maxExpressionLen ∧ ∀ chunk ∈ reading.remaining.head?,
            chunk.size ≤ isizeMax → reading.bytes.size + chunk.size < usizeModulus := by
  refine ⟨createExpression_eq E, ?_, ?_, ?_, ?_⟩
  · intro slug chunks served hlong hserves
    obtain ⟨waits, htask⟩ := handleStore_createExpression E slug chunks
    rw [htask] at hserves
    exact turnedAway_uploadTask hlong hserves
  · intro request request' served hrecut hserves
    exact hrecut.matches.serves hserves
  · intro start runs state requests hrun hrelated
    exact Pause.matches_serial (fun _ _ hrecut => Recut.matches hrecut) hrun hrelated
  · intro chunks history rest hpath
    rcases (Reading.start chunks).path X hpath with hdone | ⟨reading, hlength, hrest⟩
    · exact Or.inl hdone
    · refine Or.inr ⟨reading, ?_, hrest, reading.fits, fun chunk _ => reading.no_overflow⟩
      rw [hlength]
      exact Nat.zero_add _

end Authust
