import CosmicSwingset.Chain.Msgs
import CosmicSwingset.Foundation.GoJson

/-!
# Queries

The querier of `internal/keeper/querier.go` answers queries for the keeper's storage, among them the
mailbox of a peer, and the command `query swingset mailbox PEER` of `client/cli/query.go` prints the
answer. `GetMailbox` gives a mailbox that was never set a default, which is written in the source as
the JSON of a JSON text.

The SDK is a parameter of the model, a `CosmosSdk`: the JSON texts that amino makes of an answer, in
the querier with indentation and on standard output without, and how a command gets its arguments.
The code relies on amino to decode what it encoded and on the output to be the JSON text of the
answer and a newline, with the escapes of `json.Marshal` at most. A command gets an argument as it
was given unless it contains a NUL or is taken for a flag; a dash alone is none. `aminoSdk` is one
such SDK.
-/

set_option autoImplicit false
set_option relaxedAutoImplicit false

namespace CosmicSwingset.Chain

open Foundation

/-- `EmptyMailboxValue`. -/
def emptyMailboxValue : GoString := go "\"\x7b\\\"outbox\\\":[], \\\"ack\\\":0\x7d\""

/-- `NewMailbox`. -/
def newMailbox : Storage := ⟨emptyMailboxValue⟩

/-- `GetMailbox`. -/
def Keeper.getMailbox (k : Keeper) (store : KVStore) (peer : GoString) : Option Storage :=
  match store (go "data:mailbox." ++ peer) with
  | none => some newMailbox
  | some bz => k.storage.unmarshal bz

/-- `codec.MarshalJSONIndent` of `QueryResStorage` and of `QueryResKeys`, `cdc.MustUnmarshalJSON` of
the former (`none` is a panic), what `cliCtx.PrintOutput` then puts on standard output, and the
first argument that a command gets for an argument of the helper, if the command runs at all. -/
structure CosmosSdk where
  marshalJSONIndent : GoString → Bytes
  marshalKeysIndent : List GoString → Bytes
  unmarshalJSON : Bytes → Option GoString
  printOutput : GoString → Bytes
  arg : String → Option GoString
  unmarshal_marshal : ∀ s, unmarshalJSON (marshalJSONIndent (encode s)) = some (encode s)
  parse_printOutput : ∀ s, Json.unmarshal (printOutput (encode s)) = some (.obj [("value", .str s)])
  length_printOutput : ∀ s,
    (printOutput s).length ≤ (Json.marshal (.obj [("value", stringJson s)])).length + 1
  arg_eq : ∀ s, Char.ofNat 0 ∉ s.toList → (s.toList.head? = some '-' → s = "-") →
    arg s = some (encode s)

section Queries

variable (k : Keeper) (sdk : CosmosSdk) (store : KVStore)

/-- An answer or an error; `none` is a panic. -/
abbrev QueryResult := Option (Except SdkError Bytes)

def queryStorage (path : GoString) : QueryResult := do
  let storage ← k.getStorage store path
  return if storage.value = [] then .error (.unknownRequest (go "could not get storage"))
    else .ok (sdk.marshalJSONIndent storage.value)

def queryKeys (path : GoString) : QueryResult := do
  let keys ← k.getKeys store path
  return if keys.keys = [] then .error (.unknownRequest (go "could not get keys"))
    else .ok (sdk.marshalKeysIndent keys.keys)

def queryMailbox : List GoString → QueryResult
  | [] => none
  | peer :: _ => do
    let mailbox ← k.getMailbox store peer
    return if mailbox.value = [] then .error (.unknownRequest (go "could not get peer mailbox"))
      else .ok (sdk.marshalJSONIndent mailbox.value)

/-- The separator of a query's path. -/
def slash : Byte := 47

/-- `NewQuerier`. -/
def newQuerier : List GoString → QueryResult
  | [] => none
  | endpoint :: path =>
    if endpoint = go "storage" then queryStorage k sdk store ([slash].intercalate path)
    else if endpoint = go "keys" then queryKeys k sdk store ([slash].intercalate path)
    else if endpoint = go "mailbox" then queryMailbox k sdk store path
    else some (.error (.unknownRequest (go "unknown swingset query endpoint")))

/-- `cliCtx.QueryWithData("custom/swingset/" + path)`: the SDK takes the path apart at the slashes
and hands what follows the name of the module to its querier. -/
def queryWithData (path : GoString) : QueryResult := newQuerier k sdk store (path.splitOn slash)

/-- What `GetCmdMailbox` puts on standard output; an error goes to standard error only. -/
def cmdMailbox (peer : GoString) : Option Bytes :=
  match queryWithData k sdk store (go "mailbox/" ++ peer) with
  | none => none
  | some (.error _) => some []
  | some (.ok res) => (sdk.unmarshalJSON res).map sdk.printOutput

end Queries

variable {k : Keeper} {sdk : CosmosSdk} {store : KVStore}

/-- The path of a peer without slashes has two segments. -/
theorem splitOn_mailbox {peer : GoString} (hpeer : slash ∉ peer) :
    (go "mailbox/" ++ peer).splitOn slash = [go "mailbox", peer] := by
  have hstart : go "mailbox/" = go "mailbox" ++ [slash] := by decide
  have hname : slash ∉ go "mailbox" := by decide
  rw [hstart, List.append_assoc, List.singleton_append, List.splitOn_append_cons_self,
    List.splitOn_eq_singleton hname, List.splitOn_eq_singleton hpeer]
  rfl

/-- The command prints the mailbox of its peer. -/
theorem cmdMailbox_eq {peer : GoString} (hpeer : slash ∉ peer) {value : String}
    (hvalue : value ≠ "") (hget : k.getMailbox store peer = some ⟨encode value⟩) :
    cmdMailbox k sdk store peer = some (sdk.printOutput (encode value)) := by
  have hne : encode value ≠ [] := mt encode_eq_nil_iff.mp hvalue
  have hstorage : go "mailbox" ≠ go "storage" := by decide
  have hkeys : go "mailbox" ≠ go "keys" := by decide
  have hquery : queryWithData k sdk store (go "mailbox/" ++ peer) =
      some (.ok (sdk.marshalJSONIndent (encode value))) := by
    rw [queryWithData, splitOn_mailbox hpeer, newQuerier, if_neg hstorage, if_neg hkeys, if_pos rfl,
      queryMailbox, hget, Option.bind_eq_bind, Option.bind_some, if_neg hne]
    rfl
  simp only [cmdMailbox, hquery, sdk.unmarshal_marshal, Option.map_some]

/-! ### Amino -/

/-- White space of JSON. -/
abbrev Spaces (ws : List Char) : Prop := ws.all Json.isSpace = true

theorem skipSpace_append {ws : List Char} (hws : Spaces ws) {c : Char}
    (hc : Json.isSpace c = false) (rest : List Char) :
    Json.skipSpace (ws ++ c :: rest) = c :: rest := by
  rw [Json.skipSpace, List.dropWhile_append_of_pos (List.all_eq_true.mp hws)]
  exact Json.skipSpace_cons hc rest

/-- The object of an answer with white space in four places, and `json.Marshal`'s escapes. -/
def valueText (first colon last after : List Char) (s : String) : List Char :=
  '{' :: (first ++ '"' :: (Json.Escapes.go.literalTail "value" ++ ':' ::
    (colon ++ '"' :: (Json.Escapes.go.literalTail s ++ (last ++ '}' :: after)))))

theorem parse_valueText {first colon last after : List Char} (hfirst : Spaces first)
    (hcolon : Spaces colon) (hlast : Spaces last) (hafter : Spaces after) (s : String) :
    Json.parse .decimal (valueText first colon last after s) = some (.obj [("value", .str s)]) := by
  obtain ⟨fuel, hfuel⟩ : ∃ fuel, (valueText first colon last after s).length + 1 = fuel + 3 := by
    refine ⟨(valueText first colon last after s).length - 2, ?_⟩
    simp only [valueText, List.length_cons, List.length_append]
    omega
  have hvalue : Json.parseValue .decimal (fuel + 1) (colon ++ '"' ::
      (Json.Escapes.go.literalTail s ++ (last ++ '}' :: after))) =
        some (.str s, last ++ '}' :: after) := by
    rw [Json.parseValue.eq_def]
    simp only [skipSpace_append hcolon (show Json.isSpace '"' = false by decide),
      Json.Escapes.readString_literalTail, Option.map_some]
  have hmembers : Json.parseMembers .decimal (fuel + 2) ('"' ::
      (Json.Escapes.go.literalTail "value" ++ ':' :: (colon ++ '"' ::
        (Json.Escapes.go.literalTail s ++ (last ++ '}' :: after))))) =
          some ([("value", .str s)], after) := by
    rw [Json.parseMembers.eq_def]
    simp only [Json.skipSpace_cons (show Json.isSpace '"' = false by decide),
      Json.Escapes.readString_literalTail,
      Json.skipSpace_cons (show Json.isSpace ':' = false by decide), hvalue,
      skipSpace_append hlast (show Json.isSpace '}' = false by decide)]
  have hobject : Json.parseValue .decimal (fuel + 3) (valueText first colon last after s) =
      some (.obj [("value", .str s)], after) := by
    rw [Json.parseValue.eq_def]
    simp only [valueText, Json.skipSpace_cons (show Json.isSpace '{' = false by decide),
      skipSpace_append hfirst (show Json.isSpace '"' = false by decide)]
    change Option.map (fun p ↦ (Json.obj p.1, p.2))
      (Json.parseMembers .decimal (fuel + 2) ('"' :: _)) = _
    rw [hmembers, Option.map_some]
  have hend : Json.skipSpace after = [] :=
    List.dropWhile_eq_nil_iff.mpr (List.all_eq_true.mp hafter)
  rw [Json.parse, hfuel, hobject]
  simp only [hend, if_true]

theorem length_lt_valueText (first colon last after : List Char) (s : String) :
    s.toList.length < (valueText first colon last after s).length := by
  have hliteral := Json.Escapes.go.length_lt_literalTail s
  rw [valueText]
  simp only [List.length_cons, List.length_append]
  omega

theorem valueText_compact (after : List Char) (s : String) :
    valueText [] [] [] after s = Json.write .go .decimal (.obj [("value", .str s)]) ++ after := by
  simp [valueText, Json.write, Json.writeMembers]

theorem unmarshal_valueText {first colon last after : List Char} (hfirst : Spaces first)
    (hcolon : Spaces colon) (hlast : Spaces last) (hafter : Spaces after) (s : String) :
    Json.unmarshal (encode (String.ofList (valueText first colon last after s))) =
      some (.obj [("value", .str s)]) := by
  rw [Json.unmarshal, decode_encode, Json.parseString, String.toList_ofList,
    parse_valueText hfirst hcolon hlast hafter]

/-- The value of an answer's JSON text. -/
def readAnswer (text : Bytes) : Option GoString :=
  match (Json.unmarshal text).bind (Json.property "value") with
  | some (.str s) => some (encode s)
  | _ => none

/-- Amino's JSON is that of `encoding/json`, indented by two spaces in the querier. -/
def aminoSdk : CosmosSdk where
  marshalJSONIndent := fun s ↦
    encode (String.ofList (valueText ['\n', ' ', ' '] [' '] ['\n'] [] (decode s)))
  marshalKeysIndent := fun keys ↦ encode "\x7b\n  \"keys\": [" ++
    (encode ",").intercalate
      (keys.map fun key ↦ encode "\n    " ++ Json.marshal (stringJson key)) ++
      encode "\n  ]\n\x7d"
  unmarshalJSON := readAnswer
  printOutput := fun s ↦ encode (String.ofList (valueText [] [] [] ['\n'] (decode s)))
  arg := fun s ↦ if Char.ofNat 0 ∈ s.toList ∨ (s.toList.head? = some '-' ∧ s ≠ "-") then none
    else some (encode s)
  unmarshal_marshal := fun s ↦ by
    rw [readAnswer, unmarshal_valueText rfl rfl rfl rfl,
      decode_encode]
    rfl
  parse_printOutput := fun s ↦ by
    rw [unmarshal_valueText rfl rfl rfl rfl, decode_encode]
  length_printOutput := fun s ↦ by
    have hnewline : (encode (String.ofList ['\n'])).length = 1 := rfl
    rw [valueText_compact, String.ofList_append, encode_append, List.length_append, hnewline]
    exact le_rfl
  arg_eq := fun s hnul hdash ↦ if_neg fun h ↦ h.elim hnul fun h ↦ h.2 (hdash h.1)

theorem printOutput_encode (s : String) :
    aminoSdk.printOutput (encode s) =
      encode (String.ofList (valueText [] [] [] ['\n'] s)) := by
  simp only [aminoSdk, decode_encode]

theorem length_lt_printOutput (s : String) :
    s.toList.length < (aminoSdk.printOutput (encode s)).length := by
  have hencode := length_le_encode (String.ofList (valueText [] [] [] ['\n'] s))
  rw [String.toList_ofList] at hencode
  rw [printOutput_encode]
  exact lt_of_lt_of_le (length_lt_valueText [] [] [] ['\n'] s) hencode

end CosmicSwingset.Chain
