import Cpex.Native.Attributes
import Cpex.Native.Json

/-! # CMF messages and their projections

`cpex-core/src/cmf/{message,content}.rs` and `apl-cpex/src/message_projection.rs`: the message a
CMF hook carries, and the JSON that stands for its arguments or its result while a route is
evaluated. -/

namespace Cpex

/-! ### JSON comparison -/

/-- `Number` through `PartialEq`. -/
def Number.eq : Number → Number → Bool
  | .posInt m, .posInt n => m == n
  | .negInt i, .negInt j => i == j
  | .float x, .float y => x.beq y
  | _, _ => false

mutual

/-- `Value` through `PartialEq`. -/
def Json.eq : Json → Json → Bool
  | .null, .null => true
  | .bool a, .bool b => a == b
  | .number m, .number n => m.eq n
  | .string s, .string t => s == t
  | .array xs, .array ys => Json.eqItems xs ys
  | .object fs, .object gs => Json.eqFields fs gs
  | _, _ => false

def Json.eqItems : List Json → List Json → Bool
  | [], [] => true
  | x :: xs, y :: ys => x.eq y && Json.eqItems xs ys
  | _, _ => false

def Json.eqFields : List (String × Json) → List (String × Json) → Bool
  | [], [] => true
  | (k, x) :: fs, (l, y) :: gs => k == l && x.eq y && Json.eqFields fs gs
  | _, _ => false

end

namespace Core

/-! ### Messages -/

inductive Role where
  | system
  | developer
  | user
  | assistant
  | tool
  deriving DecidableEq, Repr

inductive Channel where
  | analysis
  | commentary
  | final
  deriving DecidableEq, Repr

structure ToolCall where
  toolCallId : String
  name : String
  arguments : HashMap String Json := ∅
  «namespace» : Option String := none

structure ToolResult where
  toolCallId : String
  toolName : String
  content : Json := .null
  isError : Bool := false

structure PromptRequest where
  promptRequestId : String
  name : String
  arguments : HashMap String Json := ∅
  serverId : Option String := none

/-- The content types the projections pass over. -/
inductive OtherContent where
  | resource
  | resourceRef
  | promptResult
  | image
  | video
  | audio
  | document
  deriving DecidableEq, Repr

/-- `ContentPart`; a part the projections pass over is kept as its serialised content. -/
inductive ContentPart where
  | text (text : String)
  | thinking (text : String)
  | toolCall (content : ToolCall)
  | toolResult (content : ToolResult)
  | promptRequest (content : PromptRequest)
  | other (kind : OtherContent) (content : Json)

/-- `Message`. -/
structure Message where
  schemaVersion : String := "2.0"
  role : Role
  content : List ContentPart := []
  channel : Option Channel := none

/-- `MessagePayload`. -/
structure MessagePayload where
  message : Message

/-- `Message::get_text_content`. -/
def Message.getTextContent (msg : Message) : String :=
  "".intercalate <| msg.content.filterMap fun
    | .text text => some text
    | _ => none

/-! ### Projections -/

/-- A `HashMap` of arguments, collected into a JSON map. -/
def argumentFields (arguments : HashMap String Json) : List (String × Json) :=
  arguments.entries.foldl (fun fields e => Json.insertField e.1 e.2 fields) []

/-- A JSON map, collected into a `HashMap` of arguments. -/
def fieldArguments (fields : List (String × Json)) : HashMap String Json :=
  fields.foldl (fun arguments field => arguments.insert field.1 field.2) ∅

/-- Rewrite the first part `rewrite?` applies to, if there is one. -/
def rewriteFirst (rewrite? : ContentPart → Option ContentPart) :
    List ContentPart → Option (List ContentPart)
  | [] => none
  | part :: parts =>
    match rewrite? part with
    | some part => some (part :: parts)
    | none => (rewriteFirst rewrite? parts).map (part :: ·)

/-- `rewrite_message_text`. -/
def rewriteMessageText (msg : Message) (newText : String) : Message :=
  let rewrite? : ContentPart → Option ContentPart := fun
    | .text _ => some (.text newText)
    | _ => none
  { msg with
    content := (rewriteFirst rewrite? msg.content).getD (msg.content ++ [.text newText]) }

/-- The arguments of a structured part. -/
def ContentPart.arguments? : ContentPart → Option Json
  | .toolCall content => some (.object (argumentFields content.arguments))
  | .promptRequest content => some (.object (argumentFields content.arguments))
  | _ => none

/-- `extract_args_from_message`. -/
def extractArgsFromMessage (msg : Message) : Json :=
  -- Without a structured part the text stands for the arguments.
  (msg.content.findSome? ContentPart.arguments?).getD (.string msg.getTextContent)

/-- The arguments of a structured part, if `args` is a map; any other value leaves them. -/
def writeArguments (args : Json) (arguments : HashMap String Json) : HashMap String Json :=
  match args with
  | .object fields => fieldArguments fields
  | _ => arguments

def ContentPart.writeArguments? (args : Json) : ContentPart → Option ContentPart
  | .toolCall content =>
    some (.toolCall { content with arguments := writeArguments args content.arguments })
  | .promptRequest content =>
    some (.promptRequest { content with arguments := writeArguments args content.arguments })
  | _ => none

/-- The fall-through of the write-backs: a string goes to the text of the message. -/
def writeText (msg : Message) (value : Json) : Message :=
  match value with
  | .string text => rewriteMessageText msg text
  | _ => msg

/-- `write_args_back_to_message`. -/
def writeArgsBackToMessage (msg : Message) (args : Json) : Message :=
  match rewriteFirst (ContentPart.writeArguments? args) msg.content with
  | some content => { msg with content }
  | none => writeText msg args

/-- What a tool result carries. -/
def ContentPart.result? : ContentPart → Option Json
  | .toolResult content => some content.content
  | _ => none

/-- `extract_result_from_message`. -/
def extractResultFromMessage (msg : Message) : Json :=
  (msg.content.findSome? ContentPart.result?).getD (.string msg.getTextContent)

def ContentPart.writeResult? (result : Json) : ContentPart → Option ContentPart
  | .toolResult content => some (.toolResult { content with content := result })
  | _ => none

/-- `write_result_back_to_message`. -/
def writeResultBackToMessage (msg : Message) (result : Json) : Message :=
  match rewriteFirst (ContentPart.writeResult? result) msg.content with
  | some content => { msg with content }
  | none => writeText msg result

/-! ### The three-way merge -/

/-- Take the keys away that are in `pre` and no longer in `post`. -/
def removeOmitted (pre post base : List (String × Json)) : List (String × Json) :=
  pre.foldl (fun base e =>
    if (post.lookup e.1).isSome then base else Json.removeField e.1 base) base

mutual

/-- `apply_changed_paths`: what changed from `pre` to `post`, applied to `base`. -/
def applyChangedPaths (base pre : Json) : Json → Json
  | .object postMap =>
    match pre with
    | .object preMap =>
      match base with
      | .object baseMap =>
        .object (applyChangedFields preMap (removeOmitted preMap postMap baseMap) postMap)
      -- The other editor replaced the map by something else.
      | _ => .object postMap
    | _ => .object postMap
  | post => if pre.eq post then base else post

/-- The loop of `apply_changed_paths` over the entries of `post`. -/
def applyChangedFields (pre base : List (String × Json)) :
    List (String × Json) → List (String × Json)
  | [] => base
  | (key, postValue) :: post =>
    let base := match pre.lookup key with
      | some preValue =>
        -- What did not change keeps the other editor's value.
        if preValue.eq postValue then base
        else
          match base.lookup key with
          | some (.object baseMap) =>
            if preValue.isObject && postValue.isObject then
              Json.insertField key
                (applyChangedPaths (.object baseMap) preValue postValue) base
            else Json.insertField key postValue base
          | _ => Json.insertField key postValue base
      -- A key that is new in `post`.
      | none => Json.insertField key postValue base
    applyChangedFields pre base post

end

end Core

end Cpex
