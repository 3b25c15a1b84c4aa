import JsonRpc.Core.RequestWire

/-!
# The wire format of responses

A response that is written and read again comes back up to two things that the
wire does not keep. A server error with one of the reserved codes is read as the
error that code stands for, and data that is `null` is read as no data.
-/

namespace JsonRpc

/-! ## What the wire keeps of an error -/

/-- The code that is read from a written code. -/
def ErrorCode.norm : ErrorCode → ErrorCode
  | .serverError code => .fromCode code
  | code => code

/-- The error that is read from a written error. -/
def Error.norm (e : Error) : Error where
  code := e.code.norm
  message := e.message
  data := e.data.filter fun v => v.content ≠ .null

/-- The output that is read from a written output. -/
def Output.norm : Output → Output
  | .success s => .success s
  | .failure f => .failure { f with error := f.error.norm }

/-- The response that is read from a written response. -/
def Response.norm : Response → Response
  | .single output => .single output.norm
  | .batch outputs => .batch (outputs.map Output.norm)

/-- An error is kept unless it is a server error with a reserved code, or its data is
`null`. -/
theorem Error.norm_eq_self {e : Error}
    (hcode : ∀ code, e.code = .serverError code →
      code ∉ [-32700, -32600, -32601, -32602, -32603])
    (hdata : e.data ≠ some .null) : e.norm = e := by
  obtain ⟨code, message, data⟩ := e
  have hkept : code.norm = code := by
    cases code with
    | serverError code =>
      have hreserved := hcode code rfl
      simp only [List.mem_cons, List.not_mem_nil, or_false, not_or] at hreserved
      simp [ErrorCode.norm, ErrorCode.fromCode, hreserved]
    | _ => rfl
  have hvalue : (data.filter fun v => v.content ≠ .null) = data := by
    cases data with
    | none => rfl
    | some v =>
      have hnull : v.content ≠ .null := by
        obtain ⟨c, hc⟩ := v
        rintro rfl
        exact hdata rfl
      simp [Option.filter, hnull]
  rw [Error.norm, hkept, hvalue]

/-- The id of an output is kept. -/
@[simp] theorem Output.id_norm (o : Output) : o.norm.id = o.id := by
  cases o <;> rfl

/-- The result of an output is kept up to the errors. -/
theorem Output.toResult_norm (o : Output) : o.norm.toResult = o.toResult.mapError Error.norm := by
  cases o <;> rfl

/-! ## Reading what was written -/

/-- The code of an integer is the code that has it. -/
theorem ErrorCode.fromCode_code (c : ErrorCode) : fromCode c.code = c.norm := by
  cases c <;> rfl

theorem ErrorCode.deserialize_serialize (c : ErrorCode) :
    deserialize c.serialize = some c.norm := by
  rw [deserialize, serialize, deserializeI64_serializeI64, Option.map_some, fromCode_code]

/-- An optional value is read back unless it is `null`. -/
theorem optional_deserialize_serialize (name : String) (v : Value) :
    (Field.optional name fun c => some (Value.deserialize c)).deserialize v.serialize =
      some ((some v).filter fun v => v.content ≠ .null) := by
  obtain ⟨c, hc⟩ := v
  have hv := Value.deserialize_serialize ⟨c, hc⟩
  cases c with
  | null => rfl
  | _ => exact congrArg (fun v => some (some v)) hv

/-- A written error is read back up to its code and `null` data. -/
theorem Error.deserialize_serialize (e : Error) : Error.deserialize e.serialize = some e.norm := by
  obtain ⟨code, message, data⟩ := e
  cases data with
  | none =>
    have hfields : Error.deserialize (Error.serialize ⟨code, message, none⟩) = (do
        let code ← ErrorCode.deserialize code.serialize
        return { code, message, data := none }) := rfl
    rw [hfields, ErrorCode.deserialize_serialize]
    rfl
  | some v =>
    have hfields : Error.deserialize (Error.serialize ⟨code, message, some v⟩) = (do
        let code ← ErrorCode.deserialize code.serialize
        let data ←
          (Field.optional "data" fun c => some (Value.deserialize c)).deserialize v.serialize
        return { code, message, data }) := rfl
    rw [hfields, ErrorCode.deserialize_serialize, optional_deserialize_serialize]
    rfl

/-- A written success is read back. -/
theorem Success.deserialize_serialize (s : Success) :
    Success.deserialize s.serialize = some s := by
  obtain ⟨jsonrpc, result, id⟩ := s
  have hfields : Success.deserialize (Success.serialize ⟨jsonrpc, result, id⟩) = (do
      let id ← Id.deserialize id.serialize
      return { jsonrpc, result := Value.deserialize result.serialize, id }) := by
    rcases jsonrpc with - | ⟨⟨⟩⟩ <;> rfl
  rw [hfields, Id.deserialize_serialize, Value.deserialize_serialize]
  rfl

/-- A written failure is not a success: it has an entry for the error. -/
theorem Success.deserialize_failure (f : Failure) : Success.deserialize f.serialize = none := by
  obtain ⟨jsonrpc, error, id⟩ := f
  rcases jsonrpc with - | ⟨⟨⟩⟩ <;> rfl

/-- A written failure is read back up to its error. -/
theorem Failure.deserialize_serialize (f : Failure) :
    Failure.deserialize f.serialize = some { f with error := f.error.norm } := by
  obtain ⟨jsonrpc, error, id⟩ := f
  have hfields : Failure.deserialize (Failure.serialize ⟨jsonrpc, error, id⟩) = (do
      let error ← Error.deserialize error.serialize
      let id ← Id.deserialize id.serialize
      return { jsonrpc, error, id }) := by
    rcases jsonrpc with - | ⟨⟨⟩⟩ <;> rfl
  rw [hfields, Error.deserialize_serialize, Id.deserialize_serialize]
  rfl

/-- A written output is read back up to its error. -/
theorem Output.deserialize_serialize (o : Output) :
    Output.deserialize o.serialize = some o.norm := by
  cases o with
  | success s =>
    rw [Output.deserialize, Output.serialize, Success.deserialize_serialize]
    rfl
  | failure f =>
    rw [Output.deserialize, Output.serialize, Success.deserialize_failure,
      Failure.deserialize_serialize]
    rfl

/-- Every output is written as an object. -/
theorem Output.exists_serialize_eq_map (o : Output) : ∃ entries, o.serialize = .map entries := by
  cases o <;> exact ⟨_, rfl⟩

/-- A sequence of objects is not read as a single output by position: its first element
is not a version. -/
theorem Output.deserialize_seq {elems : List Content}
    (helems : ∀ c ∈ elems, ∃ entries, c = .map entries) :
    Output.deserialize (.seq elems) = none := by
  have hsuccess : Success.deserialize (.seq elems) = none :=
    Content.bind_toStruct_seq (by decide) helems _
  have hfailure : Failure.deserialize (.seq elems) = none :=
    Content.bind_toStruct_seq (by decide) helems _
  rw [Output.deserialize, hsuccess, hfailure]
  rfl

/-- A written response is read back up to its errors. -/
theorem Response.deserialize_serialize (r : Response) :
    Response.deserialize r.serialize = some r.norm := by
  cases r with
  | single output =>
    rw [Response.deserialize, Response.serialize, Output.deserialize_serialize]
    rfl
  | batch outputs =>
    have hsingle : Output.deserialize (.seq (outputs.map Output.serialize)) = none := by
      refine Output.deserialize_seq (List.forall_mem_map.mpr ?_)
      intro output _
      exact output.exists_serialize_eq_map
    have houtputs : (outputs.map Output.serialize).mapM Output.deserialize =
        some (outputs.map Output.norm) := by
      rw [mapM_eq_some_iff, List.forall₂_map_left_iff, List.forall₂_map_right_iff,
        List.forall₂_same]
      exact fun output _ => output.deserialize_serialize
    rw [Response.deserialize, Response.serialize, hsingle, deserializeVec, houtputs]
    rfl

/-! ## Texts -/

/-- The response of a text. The empty text is the response to a batch without calls. -/
def Response.fromJson (json : SerdeJson) (s : String) : Option Response :=
  if s.isEmpty then some (.batch []) else (json.fromStr s).bind Response.deserialize

end JsonRpc
