import DeerFlow.Runtime.AuthorizationContext

/-! `DanglingToolCallMiddleware`: the tool calls of a message, from three fields,
and the transcript with the result of each call behind its message. Messages are
compared field by field; the arguments of calls are not read. -/

namespace DeerFlow.Middlewares.DanglingToolCalls

def unknownToolName : String := "unknown_tool"

def emptyToolNameError : String :=
  "Tool call could not be executed because its name was missing or empty."

def maxRecoveryErrorDetailLen : Nat := 500

def validToolName : Value → Bool
  | .str name => strip name ≠ ""
  | _ => false

def normalizeToolName : Value → String
  | .str name => if strip name ≠ "" then strip name else unknownToolName
  | _ => unknownToolName

structure AiMessage where
  content : Value
  toolCalls : List Value
  additionalKwargs : Dict Value
  invalidToolCalls : List Value
  deriving DecidableEq

structure ToolMessage where
  content : Value
  toolCallId : String
  name : Value
  status : String
  deriving DecidableEq

inductive Message where
  | ai (m : AiMessage)
  | tool (m : ToolMessage)
  | other (content : Value)
  deriving DecidableEq

/-- `d.get(key)`. -/
def item (d : Dict Value) (key : String) : Value := (d.get key).getD .none

def dicts (xs : List Value) : List (Dict Value) :=
  xs.filterMap fun
    | .dict d => some d
    | _ => none

def rawToolCalls (kwargs : Dict Value) : Value := item kwargs "tool_calls"

/-- What a `for` loop goes through. A value without items is a `TypeError`. -/
def iterate (value : Value) : Option (List Value) :=
  if value.truthy then match value with
    | .list xs => some xs
    | .dict items => some (items.map fun x => .str x.1)
    | .str s => some (s.toList.map fun c => .str (String.singleton c))
    | _ => none
  else some []

def markInvalidName (call : Dict Value) (name : Value) : Dict Value :=
  if validToolName name then call else call.set "invalid_tool_name" (.bool true)

def structuredCall (toolCall : Dict Value) : Dict Value :=
  let name := item toolCall "name"
  markInvalidName (toolCall.set "name" (.str (normalizeToolName name))) name

def rawName (rawCall : Dict Value) : Value :=
  let name := item rawCall "name"
  if name.truthy then name
  else match item rawCall "function" with
    | .dict function => item function "name"
    | _ => name

def rawCall (call : Dict Value) : Dict Value :=
  let name := rawName call
  markInvalidName [("id", item call "id"), ("name", .str (normalizeToolName name))] name

def invalidCall (call : Dict Value) : Dict Value :=
  let name := item call "name"
  markInvalidName [("id", item call "id"), ("name", .str (normalizeToolName name)),
    ("invalid", .bool true), ("error", item call "error")] name

def messageToolCalls (m : AiMessage) : Option (List (Dict Value)) :=
  let invalid := (dicts m.invalidToolCalls).map invalidCall
  if m.toolCalls = [] then
    (iterate (rawToolCalls m.additionalKwargs)).map fun raw => (dicts raw).map rawCall ++ invalid
  else some ((dicts m.toolCalls).map structuredCall ++ invalid)

def callId (call : Dict Value) : Value := item call "id"

def syntheticToolMessageContent (call : Dict Value) : String :=
  if (item call "invalid_tool_name").truthy then
    "[" ++ emptyToolNameError ++ " Use one of the available tool names when retrying.]"
  else if (item call "invalid").truthy then
    let errorText := match item call "error" with
      | .str error => String.ofList (error.toList.take maxRecoveryErrorDetailLen)
      | _ => ""
    if item call "name" = .str "write_file" then
      let details := if errorText ≠ "" then " Parser error: " ++ errorText else ""
      "[write_file failed before execution: the tool-call arguments were not valid JSON, " ++
        "so no file was written. This often happens when the model tries to write a very " ++
        "large Markdown file in a single tool call, especially when `content` contains " ++
        "unescaped quotes, inline JSON, backslashes, or code fences. Do not retry the same " ++
        "large `write_file` payload for this artifact; provide the report/content directly " ++
        "as normal assistant text in your next response. If a file write is still needed " ++
        "later, split the file into smaller sections instead of one large payload." ++
        details ++ "]"
    else if errorText ≠ "" then
      "[Tool call could not be executed because its arguments were invalid: " ++ errorText ++ "]"
    else "[Tool call could not be executed because its arguments were invalid.]"
  else "[Tool call was interrupted and did not return a result.]"

/-- A dictionary whose name is made a name. -/
def sanitizeName (d : Dict Value) : Dict Value :=
  let name := item d "name"
  if name = .str (normalizeToolName name) then d else d.set "name" (.str (normalizeToolName name))

/-- A raw call has its name in its function, if it has one. -/
def sanitizeRawName (d : Dict Value) : Dict Value :=
  match item d "function" with
  | .dict function =>
    if sanitizeName function = function then d
    else d.set "function" (.dict (sanitizeName function))
  | _ => sanitizeName d

/-- What is no dictionary stays. -/
def mapDict (f : Dict Value → Dict Value) : Value → Value
  | .dict d => .dict (f d)
  | value => value

def sanitizeRawToolCalls (kwargs : Dict Value) : Dict Value :=
  match rawToolCalls kwargs with
  | .list raw =>
    if raw.map (mapDict sanitizeRawName) = raw then kwargs
    else kwargs.set "tool_calls" (.list (raw.map (mapDict sanitizeRawName)))
  | _ => kwargs

def sanitizeAiMessageToolNames (m : AiMessage) : AiMessage :=
  { m with
    toolCalls := m.toolCalls.map (mapDict sanitizeName)
    additionalKwargs := sanitizeRawToolCalls m.additionalKwargs }

/-- The results that are waiting, under the id of their call. -/
abbrev ToolQueues := Dict (List ToolMessage)

def Message.toolMessage? : Message → Option ToolMessage
  | .tool t => some t
  | _ => none

def toolMessages (messages : List Message) : List ToolMessage :=
  messages.filterMap Message.toolMessage?

def toolMessagesById (messages : List Message) : ToolQueues :=
  Dict.gather ((toolMessages messages).map fun t => (t.toolCallId, t))

def hashable : Value → Bool
  | .list _ | .dict _ => false
  | _ => true

/-- The ids that are not empty, of all calls of all messages. -/
def toolCallIds : List Message → Option (List Value)
  | [] => some []
  | .ai m :: messages =>
    (messageToolCalls m).bind fun calls =>
      let ids := (calls.map callId).filter Value.truthy
      if ids.all hashable then (toolCallIds messages).map fun rest => ids ++ rest else none
  | _ :: messages => toolCallIds messages

def popResult (queues : ToolQueues) : Value → Option ToolMessage × ToolQueues
  | .str id => match queues.get id with
    | some (t :: rest) => (some t, queues.set id rest)
    | _ => (none, queues)
  | _ => (none, queues)

section Patch

variable (str : Value → String)

/-- A `ToolMessage` keeps its id as text: an id that is a number becomes its `str`. -/
def syntheticToolMessage (call : Dict Value) : ToolMessage where
  content := .str (syntheticToolMessageContent call)
  toolCallId := match callId call with
    | .str id => id
    | id => str id
  name := item call "name"
  status := "error"

def renameResult (call : Dict Value) (t : ToolMessage) : ToolMessage :=
  if (item call "invalid_tool_name").truthy ∧ validToolName t.name = false then
    { t with name := item call "name" }
  else t

/-- The results of the calls of one message, in order. -/
def patchCalls : ToolQueues → List (Dict Value) → ToolQueues × List ToolMessage
  | queues, [] => (queues, [])
  | queues, call :: calls =>
    if (callId call).truthy then
      let (existing, queues) := popResult queues (callId call)
      let t := match existing with
        | some t => renameResult call t
        | none => syntheticToolMessage str call
      let (queues, results) := patchCalls queues calls
      (queues, t :: results)
    else patchCalls queues calls

def patchMessages (ids : List Value) : ToolQueues → List Message → Option (List Message)
  | _, [] => some []
  | queues, .ai m :: messages =>
    (messageToolCalls m).bind fun calls =>
      let (queues, results) := patchCalls str queues calls
      (patchMessages ids queues messages).map fun rest =>
        .ai (sanitizeAiMessageToolNames m) :: (results.map .tool ++ rest)
  | queues, .tool t :: messages =>
    if .str t.toolCallId ∈ ids then patchMessages ids queues messages
    else (patchMessages ids queues messages).map fun rest => .tool t :: rest
  | queues, .other content :: messages =>
    (patchMessages ids queues messages).map fun rest => .other content :: rest

/-- No result is a `TypeError`; the inner one says whether there is anything to patch. -/
def buildPatchedMessages (messages : List Message) : Option (Option (List Message)) :=
  (toolCallIds messages).bind fun ids =>
    (patchMessages str ids (toolMessagesById messages) messages).map fun patched =>
      if patched = messages then none else some patched

/-- The messages of the request that `wrap_model_call` passes on. -/
def modelBound (messages : List Message) : Option (List Message) :=
  (buildPatchedMessages str messages).map fun patched => patched.getD messages

end Patch

end DeerFlow.Middlewares.DanglingToolCalls
