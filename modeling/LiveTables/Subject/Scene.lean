import LiveTables.Subject.Basic
import LiveTables.Text.Quoted

/-!
# Scenes of reacting observers

A scene is a set of subjects of integers under names, the tokens of registrations under names, and
observers that answer what they hear with steps of their own: they may subscribe others, drop tokens,
their own included, and notify again while a delivery is under way.

A subject lives while a name or a delivery under way holds it; a token is active while its subject
lives. Dropping a token ends its registration.

A delivery may start another one inside it, but each level of nesting uses up a firing of some
reaction, and reactions fire a limited number of times. `Step.firings` bounds the firings that a
program of steps can bring about, and the scene runs with that much depth (`Scene.run`).
-/

namespace LiveTables

namespace Scene

/-- One step of a program. A reaction is a condition on the value heard, the number of times it may
fire, and the steps it runs. -/
inductive Step where
  /-- Makes a subject. -/
  | create (subject : String)
  /-- Makes a further handle of a subject. -/
  | alias (subject other : String)
  /-- Drops a handle. -/
  | release (subject : String)
  /-- Registers an observer; the token is kept under the observer's name. -/
  | subscribe (subject observer : String) (reactions : List (Option Int × Nat × List Step))
  /-- Keeps a token that belongs to no subject. -/
  | blank (token : String)
  /-- Delivers a value. -/
  | notify (subject : String) (value : Int)
  /-- Drops a token. -/
  | drop (token : String)
  /-- Asks for the state of a token. -/
  | token (token : String)
  /-- Asks for the registrations of a subject. -/
  | info (subject : String)
  /-- Moves a token into the common set. -/
  | collect (token : String)
  /-- Drops the tokens of the common set. -/
  | dropCollected
  /-- Asks for the tokens of the common set. -/
  | collected

/-- The condition, the limit and the steps of a reaction. -/
abbrev Reaction := Option Int × Nat × List Step

mutual
/-- A bound on the firings that a step can bring about: an observer's reactions fire up to their
limits, and each firing runs steps in turn. -/
def Step.firings : Step → Nat
  | .subscribe _ _ reactions => reactionFirings reactions
  | _ => 0

/-- A bound on the firings of a list of reactions. -/
def reactionFirings : List (Option Int × Nat × List Step) → Nat
  | [] => 0
  | (_, limit, steps) :: rest => limit * (1 + stepFirings steps) + reactionFirings rest

/-- A bound on the firings that a program can bring about. -/
def stepFirings : List Step → Nat
  | [] => 0
  | step :: rest => step.firings + stepFirings rest
end

/-- A registration as its holder has it. A blank token has no subject. -/
structure Token where
  subject? : Option Nat
  id : Nat

/-- What a step answers. -/
inductive Answer where
  | nothing
  | id (id : Nat)
  | token (id : Nat) (active : Bool)
  | subject (registrations : Nat)
  | tokens (tokens : List (Nat × Bool))
  /-- A name that stands for nothing. -/
  | unknown (name : String)

/-- A line of the log: an observer heard a value, or a step of its reaction answered. -/
inductive Line where
  | heard (observer : String) (value : Int)
  | reacted (observer : String) (answer : Answer)

/-- An observer with its reactions, each with the number of times it has fired. -/
structure Observer where
  name : String
  reactions : List (Reaction × Nat)

end Scene

/-- Subjects by number, the handles and tokens by name, the observers by number, and the log. -/
structure Scene where
  subjects : List (Nat × Subject Nat) := []
  nextSubject : Nat := 0
  /-- The subjects in use by deliveries under way. -/
  busy : List Nat := []
  handles : List (String × Nat) := []
  tokens : List (String × Scene.Token) := []
  bag : List Scene.Token := []
  observers : Array Scene.Observer := #[]
  log : List Scene.Line := []

namespace Scene

/-- The scene at the start: one subject, named `s`. -/
def initial : Scene := { subjects := [(0, ∅)], nextSubject := 1, handles := [("s", 0)] }

/-- Whether a subject lives. -/
def isLive (w : Scene) (subject : Nat) : Bool := w.subjects.any (·.1 = subject)

/-- The registrations of a subject; none once it is gone. -/
def subject (w : Scene) (subject : Nat) : Subject Nat := (w.subjects.lookup subject).getD ∅

/-- Changes the registrations of a subject. -/
def modifySubject (w : Scene) (subject : Nat) (f : Subject Nat → Subject Nat) : Scene :=
  { w with subjects := w.subjects.map fun (n, s) => (n, if n = subject then f s else s) }

/-- Removes the subjects that neither a handle nor a delivery holds. -/
def sweep (w : Scene) : Scene :=
  { w with subjects := w.subjects.filter fun (n, _) => n ∈ w.busy || w.handles.any (·.2 = n) }

/-- Gives a subject a name; what had the name before loses it. -/
def setHandle (w : Scene) (name : String) (subject : Nat) : Scene :=
  sweep { w with handles := (name, subject) :: w.handles.filter (·.1 ≠ name) }

/-- Ends the registration of a token. -/
def disposeToken (w : Scene) (t : Token) : Scene :=
  match t.subject? with
  | some n => w.modifySubject n (·.unsubscribe t.id)
  | none => w

/-- Whether the subject of a token lives. -/
def isActive (w : Scene) (t : Token) : Bool := t.subject?.any w.isLive

/-- Takes a token from its name. -/
def takeToken (w : Scene) (name : String) : Option Token × Scene :=
  (w.tokens.lookup name, { w with tokens := w.tokens.filter (·.1 ≠ name) })

/-- Drops the token of a name, if there is one. -/
def dropToken (w : Scene) (name : String) : Scene :=
  match w.takeToken name with
  | (some t, w) => w.disposeToken t
  | (none, w) => w

/-- Keeps a token under a name; the token that had the name before is dropped. -/
def setToken (w : Scene) (name : String) (t : Token) : Scene :=
  let w := w.dropToken name
  { w with tokens := (name, t) :: w.tokens }

/-- Registers an observer at a subject. -/
def subscribe (w : Scene) (subject : Nat) (observer : String) (reactions : List Reaction) :
    Scene × Nat :=
  let id := ((w.subject subject).subscribe w.observers.size).2
  let w := w.modifySubject subject fun s => (s.subscribe w.observers.size).1
  let w := { w with observers := w.observers.push ⟨observer, reactions.map (·, 0)⟩ }
  (w.setToken observer ⟨some subject, id⟩, id)

/-- Adds a line to the log. -/
def write (w : Scene) (line : Line) : Scene := { w with log := w.log ++ [line] }

/-- Runs one step; `notify` delivers a value to a subject. -/
def exec (notify : Scene → Nat → Int → Scene) (w : Scene) : Step → Scene × Answer
  | .create name =>
    let n := w.nextSubject
    ({ w with nextSubject := n + 1, subjects := w.subjects ++ [(n, ∅)] }.setHandle name n, .nothing)
  | .alias name other =>
    match w.handles.lookup name with
    | some n => (w.setHandle other n, .nothing)
    | none => (w, .unknown name)
  | .release name => ({ w with handles := w.handles.filter (·.1 ≠ name) }.sweep, .nothing)
  | .subscribe name observer reactions =>
    match w.handles.lookup name with
    | some n => let (w, id) := w.subscribe n observer reactions; (w, .id id)
    | none => (w, .unknown name)
  | .blank name => (w.setToken name ⟨none, 0⟩, .id 0)
  | .notify name value =>
    match w.handles.lookup name with
    | some n => (notify w n value, .nothing)
    | none => (w, .unknown name)
  | .drop name => (w.dropToken name, .nothing)
  | .token name =>
    match w.tokens.lookup name with
    | some t => (w, .token t.id (w.isActive t))
    | none => (w, .unknown name)
  | .info name =>
    match w.handles.lookup name with
    | some n => (w, .subject (w.subject n).size)
    | none => (w, .unknown name)
  | .collect name =>
    match w.takeToken name with
    | (some t, w) => ({ w with bag := w.bag ++ [t] }, .nothing)
    | (none, w) => (w, .unknown name)
  | .dropCollected => (w.bag.foldl disposeToken { w with bag := [] }, .nothing)
  | .collected => (w, .tokens (w.bag.map fun t => (t.id, w.isActive t)))

/-- Fires the reaction at a place in an observer's list, if it matches the value and has firings
left. A firing counts before its steps run. -/
def react (notify : Scene → Nat → Int → Scene) (observer : Nat) (value : Int) (w : Scene)
    (place : Nat) : Scene :=
  match w.observers[observer]? with
  | none => w
  | some o =>
    match o.reactions[place]? with
    | none => w
    | some (reaction, fired) =>
      if reaction.1.all (· = value) && fired < reaction.2.1 then
        let counted := { o with reactions := o.reactions.set place (reaction, fired + 1) }
        let w := { w with observers := w.observers.setIfInBounds observer counted }
        reaction.2.2.foldl (fun w step =>
          let (w, answer) := exec notify w step
          w.write (.reacted o.name answer)) w
      else w

/-- What an observer does with a value: it notes it down and then reacts. -/
def hear (notify : Scene → Nat → Int → Scene) (value : Int) (w : Scene) (observer : Nat) : Scene :=
  match w.observers[observer]? with
  | none => w
  | some o => (List.range o.reactions.length).foldl (react notify observer value)
      (w.write (.heard o.name value))

/-- Delivers a value to the observers of a subject, with nested deliveries down to a given depth.
The subject lives at least until the delivery ends. -/
def notify : Nat → Scene → Nat → Int → Scene
  | 0, w, _, _ => w
  | depth + 1, w, subject, value =>
    let w := { w with busy := subject :: w.busy }
    let w := Subject.deliver (·.subject subject) (fun w entry => hear (notify depth) value w entry.2) w
    sweep { w with busy := w.busy.erase subject }

/-- Runs a program. For every step: its answer and the lines that it added to the log. -/
def run (steps : List Step) : List (Answer × List Line) :=
  let depth := stepFirings steps + 1
  (steps.foldl (fun (acc : Scene × List (Answer × List Line)) step =>
    let (w, answer) := exec (notify depth) { acc.1 with log := [] } step
    (w, acc.2 ++ [(answer, w.log)])) (initial, [])).2

/-! ## How tokens and subjects are shown -/

/-- A token in the notation for inspection. -/
def tokenText (id : Nat) (active : Bool) : String :=
  Text.inspect "Subscription" [("id", toString id), ("active", toString active)]

/-- The common set in the notation for inspection. -/
def tokensText (tokens : List (Nat × Bool)) : String :=
  let inner := ", ".intercalate (tokens.map fun (id, active) => tokenText id active)
  Text.inspect "SubscriptionSet" [("tokens", "[" ++ inner ++ "]")]

/-- A subject in the notation for inspection. -/
def subjectText (registrations : Nat) : String :=
  Text.inspect "Subject" [("subscribers", toString registrations)]

end Scene

end LiveTables
