import PositionalSearch.Inspection
import PositionalSearch.Query
import PositionalSearch.Walk

/-!
# Sessions

A session holds an open tree and takes one step after another: moves, looks
and changes.  A step that breaks a rule of use is the last one.
-/

namespace PositionalSearch

/-- An open tree, and what the meters showed that were taken off its root. -/
structure Session where
  {height : Nat}
  root : Tree height
  detached : List MeterTally

/-- Something to do with an open tree. -/
inductive Step
  | next
  | seek (target : DocId)
  /-- Take up to so many spans with their payloads. -/
  | take (limit : Nat)
  | payloads
  | hasPayload
  | current
  | doc
  | start
  | stop
  | atEnd
  | estimate
  | describe
  | tally
  | arm (name : String) (fault? : Option ProbeFault)
  | close
  /-- Take the meter off the root. -/
  | unwrap

/-- Why taking spans stopped. -/
inductive Ending
  | limit
  | exhausted
  | failed (failure : Failure)

/-- What a step answers when it does not fail. -/
inductive Reply
  | done
  | span (span? : Option Span)
  | landing (landing? : Option Landing)
  | taken (visits : List Visit) (ending : Ending)
  | payloads (payloads : List Payload)
  | flag (value : Bool)
  | number (value : Nat)
  | description (root : Description)
  | tally (counts : Tally)

/-- A step's answer, and where the root stood after it. -/
structure Answer where
  outcome : Except Failure Reply
  standing : Standing

namespace Answer

/-- Whether a rule of use was broken. -/
def breached (answer : Answer) : Bool :=
  match answer.outcome with
  | .error (.breach _) => true
  | .ok (.taken _ (.failed (.breach _))) => true
  | _ => false

end Answer

/-- Take up to so many spans with their payloads. -/
def Cursor.take {σ : Type} [Cursor σ] :
    Nat → σ → (List Visit × Ending) × σ
  | 0, cursor => (([], .limit), cursor)
  | limit + 1, cursor =>
      match Cursor.next cursor with
      | (.error failure, reached) => (([], .failed failure), reached)
      | (.ok none, reached) => (([], .exhausted), reached)
      | (.ok (some span), reached) =>
          match Cursor.payloads reached with
          | .error failure => (([], .failed failure), reached)
          | .ok payloads =>
              let ((visits, ending), last) := Cursor.take limit reached
              ((⟨span, payloads⟩ :: visits, ending), last)

namespace Session

/-- Open a query. -/
def ofQuery (query : Query) : Session := ⟨query.openTree, []⟩

/-- Where the root stands. -/
def standing (session : Session) : Standing := Cursor.standing session.root

/-- The estimate of the root. -/
def estimate (session : Session) : Nat := Cursor.estimate session.root

/-- All counts, those of detached meters included. -/
def tally (session : Session) : Tally :=
  ⟨[], session.detached, []⟩ ++ session.root.tally

/-- Take the meter off a root; the flag says whether there was one. -/
def unwrapRoot (detached : List MeterTally) :
    {height : Nat} → Tree height → Bool × Session
  | 0, root => nomatch root
  | _ + 1, .metered node => (true, ⟨node.child, detached ++ [node.tally]⟩)
  | height + 1, root => (false, ⟨(root : Tree (height + 1)), detached⟩)

/-- Take the meter off the root; the flag says whether there was one. -/
def unwrap (session : Session) : Bool × Session :=
  unwrapRoot session.detached session.root

/-- Move the root. -/
def moving {α : Type} (session : Session)
    (step : {height : Nat} → Attempt Failure (Tree height) α)
    (reply : α → Reply) : Except Failure Reply × Session :=
  match step session.root with
  | (outcome, root) => (outcome.map reply, { session with root := root })

/-- Take one step. -/
def perform (session : Session) : Step → Except Failure Reply × Session
  | .next => session.moving Cursor.next .span
  | .seek target => session.moving (Cursor.land target) .landing
  | .take limit =>
      match Cursor.take limit session.root with
      | ((visits, ending), root) =>
          (.ok (.taken visits ending), { session with root := root })
  | .payloads => ((Cursor.payloads session.root).map .payloads, session)
  | .hasPayload => ((Cursor.hasPayload session.root).map .flag, session)
  | .current =>
      ((Cursor.current session.root).map fun span => .span (some span), session)
  | .doc =>
      ((Cursor.doc session.root).map fun doc => .number doc.toNat, session)
  | .start =>
      ((Cursor.start session.root).map fun position =>
        .number position.toNat, session)
  | .stop =>
      ((Cursor.stop session.root).map fun position =>
        .number position.toNat, session)
  | .atEnd => (.ok (.flag (Cursor.atEnd session.root)), session)
  | .estimate => (.ok (.number session.estimate), session)
  | .describe => (.ok (.description session.root.describe), session)
  | .tally => (.ok (.tally session.tally), session)
  | .arm name fault? =>
      (.ok .done, { session with root := session.root.arm name fault? })
  | .close => (.ok .done, { session with root := Cursor.close session.root })
  | .unwrap =>
      let (unwrapped, rest) := session.unwrap
      (.ok (.flag unwrapped), rest)

/-- Take steps until one breaks a rule of use. -/
def performAll (session : Session) : List Step → List Answer × Session
  | [] => ([], session)
  | step :: rest =>
      let (outcome, reached) := session.perform step
      let answer : Answer := ⟨outcome, reached.standing⟩
      if answer.breached then ([answer], reached)
      else
        let (answers, last) := reached.performAll rest
        (answer :: answers, last)

/-- Walk the tree. -/
def walk (session : Session) (plan : Walk.Plan) :
    Walk.Result (Tree session.height) × Session :=
  let result := Walk.run plan session.root
  (result, { session with root := result.root })

end Session

end PositionalSearch
