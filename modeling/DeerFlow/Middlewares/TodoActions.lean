import DeerFlow.Lib.Ranks
import DeerFlow.Lib.TextLines
import DeerFlow.Runtime.Value

/-! What a call of `write_todos` did to the list of todos. The todos are matched by content first,
and a todo of a new content with the one that stood at its position. -/

namespace DeerFlow.Middlewares

inductive TodoStatus where
  | pending
  | inProgress
  | completed
  deriving DecidableEq

structure Todo where
  content : Option Text
  status : Option TodoStatus
  deriving DecidableEq

inductive TodoActionKind where
  | todoComplete
  | todoStart
  | todoUpdate
  | todoRemove
  deriving DecidableEq

structure TodoAction where
  kind : TodoActionKind
  content : Text
  deriving DecidableEq

/-- `isinstance(content, str) and content`. -/
def Todo.named (todo : Todo) : Option Text := todo.content.filter (· ≠ [])

def todoStatusKind : Option TodoStatus → TodoActionKind
  | some .completed => .todoComplete
  | some .inProgress => .todoStart
  | some .pending | none => .todoUpdate

def todoActionKind (previous : Option Todo) (current : Todo) : TodoActionKind :=
  match previous with
  | none => todoStatusKind current.status
  | some previous =>
    if previous.content ≠ current.content then .todoUpdate else todoStatusKind current.status

/-- What the loop finds for a next todo: the previous todo, with its index. -/
structure TodoStep where
  todo : Todo
  content : Text
  previousMatch : Option (Todo × Nat)
  deriving DecidableEq

def TodoStep.unchanged (step : TodoStep) : Bool :=
  step.previousMatch.any fun p =>
    p.1.content = some step.content && p.1.status = step.todo.status

def TodoStep.action? (step : TodoStep) : Option TodoAction :=
  if step.unchanged then none
  else some ⟨todoActionKind (step.previousMatch.map Prod.fst) step.todo, step.content⟩

structure TodoDiff where
  previousByContent : Text → List (Todo × Nat)
  matchedPreviousIndices : List Nat
  steps : List TodoStep

/-- The todos of a content, with their indices. -/
def indexed (todos : List Todo) (content : Text) : List (Todo × Nat) :=
  todos.zipIdx.filter fun p => p.1.named = some content

def knows (todos : List Todo) (content : Text) : Bool := todos.any (·.named = some content)

section Steps
variable (previous : List Todo)

/-- The first todo of that content that has not been matched. -/
def matchByContent (diff : TodoDiff) (content : Text) : TodoDiff × Option (Todo × Nat) :=
  match (diff.previousByContent content).dropWhile (·.2 ∈ diff.matchedPreviousIndices) with
  | [] => ({ diff with
      previousByContent := Function.update diff.previousByContent content [] }, none)
  | found :: rest => ({ diff with
      previousByContent := Function.update diff.previousByContent content rest
      matchedPreviousIndices := found.2 :: diff.matchedPreviousIndices }, some found)

def matchByPosition (diff : TodoDiff) (index : Nat) (content : Text) :
    TodoDiff × Option (Todo × Nat) :=
  match previous[index]? with
  | some todo =>
    if !knows previous content && index ∉ diff.matchedPreviousIndices then
      ({ diff with matchedPreviousIndices := index :: diff.matchedPreviousIndices },
        some (todo, index))
    else (diff, none)
  | none => (diff, none)

def matchTodo (diff : TodoDiff) (index : Nat) (content : Text) : TodoDiff × Option (Todo × Nat) :=
  match matchByContent diff content with
  | (diff, some found) => (diff, some found)
  | (diff, none) => matchByPosition previous diff index content

def nextTodo (diff : TodoDiff) (item : Todo × Nat) : TodoDiff :=
  match item.1.named with
  | none => diff
  | some content =>
    let (diff, previousMatch) := matchTodo previous diff item.2 content
    { diff with steps := diff.steps ++ [⟨item.1, content, previousMatch⟩] }

def diffTodos (next : List Todo) : TodoDiff :=
  next.zipIdx.foldl (nextTodo previous) ⟨indexed previous, [], []⟩

def todoRemovals (matched : List Nat) : List TodoAction :=
  (previous.zipIdx.filter (·.2 ∉ matched)).filterMap fun p => p.1.named.map (⟨.todoRemove, ·⟩)

def buildTodoActions (next : List Todo) : List TodoAction :=
  let diff := diffTodos previous next
  diff.steps.filterMap TodoStep.action? ++ todoRemovals previous diff.matchedPreviousIndices

end Steps

example : buildTodoActions [⟨some ['a'], some .pending⟩]
    [⟨some ['a'], some .completed⟩, ⟨some ['b'], some .inProgress⟩] =
      [⟨.todoComplete, ['a']⟩, ⟨.todoStart, ['b']⟩] := by
  decide

end DeerFlow.Middlewares
