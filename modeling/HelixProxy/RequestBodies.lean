import HelixProxy.ControlApi
import HelixProxy.JsonStruct

/-!
# The bodies of put requests

`decodeJSON` of `internal/api/handlers.go` in front of the put handlers. The
decoder takes the first value of the body and is not asked what follows it, so
that a well-formed document is served with whatever comes behind it.
-/

namespace HelixProxy.Api

open Store JsonText Reading
set_option autoImplicit false

/-- What the decoder adds to a body: the text of its error, and the float64 that the
literal of a number is read as, unless it is out of range. -/
structure Codec where
  errorText : Bytes → Bytes
  float : Bytes → Option Rat

section Configs

variable (float : Bytes → Option Rat)

mutual

def toJson : Value → Json
  | .null => .null
  | .bool b => .bool b
  | .number literal => ((float literal).map Json.number).getD .overflow
  | .string body => .string (unquote body)
  | .array items => .array (toJsons items)
  | .object members => .object (toMembers members)

def toJsons : List Value → List Json
  | [] => []
  | v :: vs => toJson v :: toJsons vs

def toMembers : List (Bytes × Value) → List (Bytes × Json)
  | [] => []
  | (k, v) :: ms => (k, toJson v) :: toMembers ms

end

/-- A `json.RawMessage` keeps any value, `null` and numbers out of range too. -/
def rawMessage {δ : Type} (name : Bytes) (put : RawConfig → δ → δ) : StructField δ where
  name := name
  set v := some (put (.document (toJson float v)))

end Configs

/-! The fields of the DTOs. An `id` that no handler reads is decoded all the same. -/

def profileFields (codec : Codec) : List (StructField ProfileDTO) :=
  [.text (lit "id") fun _ d => d,
    .text (lit "name") fun s d => { d with name := s },
    .text (lit "type") fun s d => { d with type := s },
    rawMessage codec.float (lit "config") fun c d => { d with config := c },
    .text (lit "secret_ref") fun s d => { d with secretRef := s },
    .bool (lit "enabled") fun b d => { d with enabled := b }]

def targetFields : List (StructField TargetDTO) :=
  [.text (lit "id") fun _ d => d,
    .text (lit "public_alias") fun s d => { d with publicAlias := s },
    .text (lit "private_ip") fun s d => { d with privateIP := s },
    .int (lit "port") fun n d => { d with port := n },
    .text (lit "protocol") fun s d => { d with protocol := s },
    .text (lit "vpn_profile_id") fun s d => { d with vpnProfileID := s },
    .text (lit "health_check") fun s d => { d with healthCheck := s },
    .bool (lit "enabled") fun b d => { d with enabled := b }]

def ruleFields : List (StructField RuleDTO) :=
  [.text (lit "id") fun s d => { d with id := s },
    .int (lit "priority") fun n d => { d with priority := n },
    .text (lit "match_host") fun s d => { d with matchHost := s },
    .text (lit "match_path") fun s d => { d with matchPath := s },
    .text (lit "target_host_id") fun s d => { d with targetHostID := s },
    .bool (lit "enabled") fun b d => { d with enabled := b }]

def tierFields : List (StructField TierDTO) :=
  [.text (lit "target_id") fun s d => { d with targetID := s },
    .text (lit "vpn_profile_id") fun s d => { d with vpnProfileID := s },
    .int (lit "tier") fun n d => { d with tier := n }]

def userFields : List (StructField UserDTO) :=
  [.text (lit "id") fun _ d => d,
    .text (lit "username") fun s d => { d with username := s },
    .text (lit "secret_ref") fun s d => { d with secretRef := s },
    .text (lit "role") fun s d => { d with role := s },
    .bool (lit "enabled") fun b d => { d with enabled := b }]

/-- With `DisallowUnknownFields`. -/
def decodeJSON {δ : Type} (codec : Codec) (fields : List (StructField δ)) (zero : δ) (body : Bytes) :
    Except Bytes δ :=
  match readDocument body with
  | none => .error (codec.errorText body)
  | some (v, _) =>
    match decodeStruct fields (fun _ => none) zero v with
    | none => .error (codec.errorText body)
    | some d => .ok d

/-- Answered 400, with the tables and their audit log as they were. -/
def Refusal (t : Tables) (out : Tables × Response) : Prop := out.1 = t ∧ out.2.code = 400

/-! What the handlers check of a body that was decoded. -/

def ProfileDTO.checked (d : ProfileDTO) : Bool :=
  Strings.trimSpace d.name ≠ [] && (readType d.type).isSome && d.config.wellFormed

def TargetDTO.checked (d : TargetDTO) : Bool :=
  Strings.trimSpace d.publicAlias ≠ [] && Strings.trimSpace d.privateIP ≠ [] &&
    !decide (d.port < 0 ∨ d.port > 65535)

def RuleDTO.checked (d : RuleDTO) : Bool := d.matchHost ≠ [] || d.matchPath ≠ []

def TierDTO.checked (d : TierDTO) : Bool := d.targetID ≠ [] && d.vpnProfileID ≠ [] && !(d.tier < 0)

def UserDTO.checked (d : UserDTO) : Bool := Strings.trimSpace d.username ≠ []

/-- No transaction can be opened. -/
def unopened : Env where
  pg := ⟨fun _ => none, fun _ => none, fun _ => none, fun _ => []⟩
  beginFault := some []

def notBegun : Response := internalError (.failed (lit "store: begin tx: "))

/-- A handler refuses a body that fails its checks, and opens a transaction for any other. -/
inductive Decides : Bool → (Env → Tables → Tables × Response) → Prop
  | refuse {put : Env → Tables → Tables × Response} (msg : Bytes) :
      (∀ env t, put env t = (t, badRequest msg)) → Decides false put
  | proceed {put : Env → Tables → Tables × Response} :
      (∀ t, put unopened t = (t, notBegun)) → Decides true put

theorem Decides.of_eq {checked value : Bool} {put : Env → Tables → Tables × Response}
    (h : Decides value put) (heq : checked = value) : Decides checked put := heq ▸ h

theorem Decides.refusal_iff {checked : Bool} {put : Env → Tables → Tables × Response}
    (h : Decides checked put) : (∀ env t, Refusal t (put env t)) ↔ checked = false := by
  cases h with
  | refuse msg hrefuse =>
    refine ⟨fun _ => rfl, fun _ env t => ?_⟩
    rw [hrefuse env t]
    exact ⟨rfl, rfl⟩
  | proceed hproceed =>
    refine ⟨fun hrefused => ?_, Bool.noConfusion⟩
    have hcode := (hrefused unopened {}).2
    rw [hproceed {}] at hcode
    cases hcode

theorem putProfile_decides (d : ProfileDTO) : Decides d.checked fun env => putProfile env (.ok d) := by
  by_cases hname : Strings.trimSpace d.name = []
  · exact (Decides.refuse _ fun _ _ => if_pos hname).of_eq (by simp [ProfileDTO.checked, hname])
  cases htype : readType d.type with
  | none =>
    refine (Decides.refuse (lit "type must be wireguard|openvpn|legacy") fun _ _ =>
      (if_neg hname).trans ?_).of_eq (by simp [ProfileDTO.checked, htype])
    rw [htype]
  | some type =>
    cases hconfig : d.config.wellFormed with
    | false =>
      refine (Decides.refuse (lit "config must be a valid JSON object") fun _ _ =>
        (if_neg hname).trans ?_).of_eq (by simp [ProfileDTO.checked, hconfig])
      rw [htype, hconfig]
      rfl
    | true =>
      refine (Decides.proceed fun _ => (if_neg hname).trans ?_).of_eq
        (by simp [ProfileDTO.checked, hname, htype, hconfig])
      rw [htype, hconfig]
      rfl

theorem putTarget_decides (d : TargetDTO) : Decides d.checked fun env => putTarget env (.ok d) := by
  by_cases halias : Strings.trimSpace d.publicAlias = []
  · exact (Decides.refuse _ fun _ _ => if_pos halias).of_eq (by simp [TargetDTO.checked, halias])
  by_cases hip : Strings.trimSpace d.privateIP = []
  · exact (Decides.refuse _ fun _ _ => (if_neg halias).trans (if_pos hip)).of_eq
      (by simp [TargetDTO.checked, hip])
  by_cases hport : d.port < 0 ∨ d.port > 65535
  · exact (Decides.refuse _ fun _ _ => (if_neg halias).trans ((if_neg hip).trans (if_pos hport))).of_eq
      (by rw [TargetDTO.checked, decide_eq_true hport]; simp)
  · exact (Decides.proceed fun _ =>
      (if_neg halias).trans ((if_neg hip).trans ((if_neg hport).trans rfl))).of_eq
      (by rw [TargetDTO.checked, decide_eq_false hport]; simp [halias, hip])

theorem putRule_decides (d : RuleDTO) : Decides d.checked fun env => putRule env (.ok d) := by
  by_cases hmatch : d.matchHost = [] ∧ d.matchPath = []
  · exact (Decides.refuse _ fun _ _ => if_pos hmatch).of_eq (by simp [RuleDTO.checked, hmatch])
  · exact (Decides.proceed fun _ => (if_neg hmatch).trans rfl).of_eq
      (by simpa [RuleDTO.checked, Classical.or_iff_not_imp_left] using hmatch)

theorem putTier_decides (d : TierDTO) : Decides d.checked fun env => putTier env (.ok d) := by
  by_cases hids : d.targetID = [] ∨ d.vpnProfileID = []
  · refine (Decides.refuse _ fun _ _ => if_pos hids).of_eq ?_
    rcases hids with hid | hid <;> simp [TierDTO.checked, hid]
  by_cases htier : d.tier < 0
  · exact (Decides.refuse _ fun _ _ => (if_neg hids).trans (if_pos htier)).of_eq
      (by simp [TierDTO.checked, htier])
  · refine (Decides.proceed fun _ => (if_neg hids).trans ((if_neg htier).trans rfl)).of_eq ?_
    rw [not_or] at hids
    simp [TierDTO.checked, hids, htier]

theorem putUser_decides (d : UserDTO) : Decides d.checked fun env => putUser env (.ok d) := by
  by_cases hname : Strings.trimSpace d.username = []
  · exact (Decides.refuse _ fun _ _ => if_pos hname).of_eq (by simp [UserDTO.checked, hname])
  · exact (Decides.proceed fun _ => (if_neg hname).trans rfl).of_eq
      (by simp [UserDTO.checked, hname])

/-- A put handler with the DTO it decodes and its checks, which the DTO that nothing was
stored in fails. -/
structure Endpoint where
  DTO : Type
  fields : List (StructField DTO)
  zero : DTO
  checked : DTO → Bool
  put : Env → Except Bytes DTO → Tables → Tables × Response
  error_refused : ∀ env e t, Refusal t (put env (.error e) t)
  decides : ∀ d, Decides (checked d) fun env => put env (.ok d)
  zero_unchecked : checked zero = false

def profiles (codec : Codec) : Endpoint where
  DTO := ProfileDTO
  fields := profileFields codec
  zero := { name := [] }
  checked := ProfileDTO.checked
  put := putProfile
  error_refused _ _ _ := ⟨rfl, rfl⟩
  decides := putProfile_decides
  zero_unchecked := rfl

def targets : Endpoint where
  DTO := TargetDTO
  fields := targetFields
  zero := { publicAlias := [], privateIP := [] }
  checked := TargetDTO.checked
  put := putTarget
  error_refused _ _ _ := ⟨rfl, rfl⟩
  decides := putTarget_decides
  zero_unchecked := rfl

def rules : Endpoint where
  DTO := RuleDTO
  fields := ruleFields
  zero := {}
  checked := RuleDTO.checked
  put := putRule
  error_refused _ _ _ := ⟨rfl, rfl⟩
  decides := putRule_decides
  zero_unchecked := rfl

def tiers : Endpoint where
  DTO := TierDTO
  fields := tierFields
  zero := {}
  checked := TierDTO.checked
  put := putTier
  error_refused _ _ _ := ⟨rfl, rfl⟩
  decides := putTier_decides
  zero_unchecked := rfl

def users : Endpoint where
  DTO := UserDTO
  fields := userFields
  zero := { username := [] }
  checked := UserDTO.checked
  put := putUser
  error_refused _ _ _ := ⟨rfl, rfl⟩
  decides := putUser_decides
  zero_unchecked := rfl

inductive Resource where
  | profile
  | target
  | rule
  | tier
  | user
  deriving DecidableEq, Repr

def Resource.endpoint (codec : Codec) : Resource → Endpoint
  | .profile => profiles codec
  | .target => targets
  | .rule => rules
  | .tier => tiers
  | .user => users

namespace Endpoint

def serve (endpoint : Endpoint) (codec : Codec) (env : Env) (body : Bytes) :
    Tables → Tables × Response :=
  endpoint.put env (decodeJSON codec endpoint.fields endpoint.zero body)

/-- Refused whatever the database would do; a transaction that cannot be opened answers
500, so none is opened. -/
def Refuses (endpoint : Endpoint) (codec : Codec) (body : Bytes) : Prop :=
  ∀ env t, Refusal t (endpoint.serve codec env body t)

/-- One JSON object with white space around it, all of whose members are fields of the
DTO, as the decoder matches names, with values of their types. -/
def WellFormed (endpoint : Endpoint) (body : Bytes) : Prop :=
  ∃ depth members, body ∈ padded isSpace (texts depth (.object members)) ∧
    ∀ m ∈ members, Admitted endpoint.fields m

variable {endpoint : Endpoint} {codec : Codec}

theorem decodeJSON_eq_ok_iff {δ : Type} {fields : List (StructField δ)} {zero d : δ} {body : Bytes} :
    decodeJSON codec fields zero body = .ok d ↔
      ∃ v rest, readDocument body = some (v, rest) ∧
        decodeStruct fields (fun _ => none) zero v = some d := by
  unfold decodeJSON
  cases readDocument body with
  | none => simp
  | some p =>
    obtain ⟨v, rest⟩ := p
    cases h : decodeStruct fields (fun _ => none) zero v with
    | none => simp [h]
    | some d' => simp [h]

/-- What the decoder took, it takes with anything behind it. -/
theorem decodeJSON_append {δ : Type} {fields : List (StructField δ)} {zero d : δ} {body : Bytes}
    (h : decodeJSON codec fields zero body = .ok d) (more : Bytes) :
    decodeJSON codec fields zero (body ++ more) = .ok d := by
  obtain ⟨v, rest, hread, hdecode⟩ := decodeJSON_eq_ok_iff.mp h
  have hmore := readDocument_append hread (ne_number_of_decodeStruct hdecode) more
  exact decodeJSON_eq_ok_iff.mpr ⟨v, rest ++ more, hmore, hdecode⟩

theorem refuses_of_error {body : Bytes} {e : Bytes}
    (h : decodeJSON codec endpoint.fields endpoint.zero body = .error e) :
    endpoint.Refuses codec body := by
  intro env t
  rw [serve, h]
  exact endpoint.error_refused env e t

/-- What was decoded is refused exactly if it fails the checks. -/
theorem refuses_ok_iff {body : Bytes} {d : endpoint.DTO}
    (h : decodeJSON codec endpoint.fields endpoint.zero body = .ok d) :
    endpoint.Refuses codec body ↔ endpoint.checked d = false := by
  have hserve : ∀ env t, endpoint.serve codec env body t = endpoint.put env (.ok d) t := by
    intro env t
    rw [serve, h]
  simp only [Refuses, hserve]
  exact (endpoint.decides d).refusal_iff

/-- The decoder took nothing, or `null`, or took a document from the front of the body. -/
theorem refuses_or_leading (body : Bytes) :
    endpoint.Refuses codec body ∨ ∃ doc rest d, body = doc ++ rest ∧ endpoint.WellFormed doc ∧
      decodeJSON codec endpoint.fields endpoint.zero body = .ok d ∧
      decodeJSON codec endpoint.fields endpoint.zero doc = .ok d := by
  cases hbody : decodeJSON codec endpoint.fields endpoint.zero body with
  | error e => exact .inl (refuses_of_error hbody)
  | ok d =>
    obtain ⟨v, rest, hread, hdecode⟩ := decodeJSON_eq_ok_iff.mp hbody
    obtain ⟨l, hl, text, htext, heq⟩ := readDocument_sound hread
    cases v with
    | null =>
      obtain rfl : endpoint.zero = d := Option.some.inj hdecode
      exact .inl ((refuses_ok_iff hbody).mpr endpoint.zero_unchecked)
    | object members =>
      have hdoc : readDocument (l ++ (text ++ [])) = some (.object members, []) :=
        readValue_dropWhile hl htext (by simp)
      have hmembers := decodeMembers_isSome_iff endpoint.fields endpoint.zero members
      refine .inr ⟨l ++ (text ++ []), rest, d, by simp [heq], ?_, rfl, ?_⟩
      · have hpadded := mem_padded.mpr ⟨l, hl, text, htext, [], nil_mem_run _, rfl⟩
        refine ⟨maxNestingDepth, members, hpadded, ?_⟩
        exact hmembers.mp (Option.isSome_of_eq_some hdecode)
      · exact decodeJSON_eq_ok_iff.mpr ⟨_, [], hdoc, hdecode⟩
    | bool b => cases hdecode
    | number literal => cases hdecode
    | string s => cases hdecode
    | array items => cases hdecode

theorem WellFormed.append {doc rest : Bytes} (h : endpoint.WellFormed doc)
    (hrest : rest ∈ run isSpace) : endpoint.WellFormed (doc ++ rest) := by
  obtain ⟨depth, members, hdoc, hmembers⟩ := h
  obtain ⟨l, hl, m, hm, r, hr, rfl⟩ := mem_padded.mp hdoc
  refine ⟨depth, members, mem_padded.mpr ⟨l, hl, m, hm, r ++ rest, ?_, by simp⟩, hmembers⟩
  intro c hc
  rcases List.mem_append.mp hc with hc | hc
  · exact hr c hc
  · exact hrest c hc

/-- A body that is not one well-formed document is refused exactly if no document that
passes the checks stands in front of further data. -/
theorem refuses_iff {body : Bytes} (h : ¬ endpoint.WellFormed body) :
    endpoint.Refuses codec body ↔
      ∀ doc rest d, body = doc ++ rest → rest ∉ run isSpace → endpoint.WellFormed doc →
        decodeJSON codec endpoint.fields endpoint.zero doc = .ok d → endpoint.checked d = false := by
  constructor
  · rintro hbody doc rest d rfl - - hdoc
    exact (refuses_ok_iff (decodeJSON_append hdoc rest)).mp hbody
  · intro hleading
    rcases refuses_or_leading body with hrefused | ⟨doc, rest, d, heq, hdoc, hbody, halone⟩
    · exact hrefused
    · have hrest : rest ∉ run isSpace := by
        intro hspace
        apply h
        rw [heq]
        exact hdoc.append hspace
      exact (refuses_ok_iff hbody).mpr (hleading doc rest d heq hrest hdoc halone)

end Endpoint

/-- The put handlers answer 400 to a malformed body, and leave everything as it is, exactly
if no document whose values pass the handler's checks stands in front of further data in
it. -/
theorem malformed_body_refused_iff (codec : Codec) (resource : Resource) (body : Bytes)
    (h : ¬ (resource.endpoint codec).WellFormed body) :
    (resource.endpoint codec).Refuses codec body ↔
      ∀ doc rest d, body = doc ++ rest → rest ∉ run isSpace →
        (resource.endpoint codec).WellFormed doc →
        decodeJSON codec (resource.endpoint codec).fields (resource.endpoint codec).zero doc = .ok d →
        (resource.endpoint codec).checked d = false :=
  Endpoint.refuses_iff h

def roleObject : Bytes := lit "\x7b\"role\":\"admin\"\x7d"

/-- A user, and a second object behind it. -/
def twoObjects : Bytes :=
  lit "\x7b\"username\":\"bob\",\"secret_ref\":\"vault/bob\",\"enabled\":true\x7d" ++ roleObject

/-- An object without a name, and a second one behind it. -/
def namelessFirst : Bytes := roleObject ++ roleObject

/-- A body is malformed if the decoder, with whatever room for brackets, leaves an object. -/
theorem malformed_of_rest (endpoint : Endpoint) {body : Bytes}
    (h : ∀ depth v rest, readValue depth (body.dropWhile isSpace) = some (v, rest) →
      rest = roleObject) : ¬ endpoint.WellFormed body := by
  rintro ⟨depth, members, hbody, -⟩
  obtain ⟨l, hl, text, htext, rest, hrest, heq⟩ := mem_padded.mp hbody
  have hread : readValue depth ((l ++ (text ++ rest)).dropWhile isSpace) =
      some (.object members, rest) := readValue_dropWhile hl htext (by simp)
  rw [← heq] at hread
  obtain rfl := h _ _ _ hread
  have hspace := hrest 123 List.mem_cons_self
  cases hspace

theorem twoObjects_malformed (endpoint : Endpoint) : ¬ endpoint.WellFormed twoObjects := by
  refine malformed_of_rest endpoint fun depth v rest h => ?_
  -- The values of the members are read one level down, so two levels are told apart.
  rcases depth with _ | _ | depth
  · cases h
  · cases h
    rfl
  · cases h
    rfl

theorem namelessFirst_malformed (endpoint : Endpoint) : ¬ endpoint.WellFormed namelessFirst := by
  refine malformed_of_rest endpoint fun depth v rest h => ?_
  rcases depth with _ | _ | depth
  · cases h
  · cases h
    rfl
  · cases h
    rfl

/-- A decoder whose error texts and float64 values play no part. -/
def bobCodec : Codec := ⟨fun _ => [], fun _ => some 0⟩

def bobEnv : Env where
  pg := ⟨some, some, some, fun _ => []⟩
  newID := lit "u1"

/-- The first object has no username, and so the body is refused. -/
theorem malformed_body_refused_nameless :
    ¬ (Resource.user.endpoint bobCodec).WellFormed namelessFirst ∧
      (Resource.user.endpoint bobCodec).Refuses bobCodec namelessFirst := by
  refine ⟨namelessFirst_malformed _,
    (malformed_body_refused_iff bobCodec .user namelessFirst (namelessFirst_malformed _)).mpr ?_⟩
  intro doc rest d heq _ _ hdoc
  have hbody := Endpoint.decodeJSON_append hdoc rest
  rw [← heq] at hbody
  obtain rfl : ({ username := [], role := lit "admin" } : UserDTO) = d := Except.ok.inj hbody
  rfl

/-- The first object is stored and the second ignored. -/
theorem trailing_object_served :
    ¬ (Resource.user.endpoint bobCodec).WellFormed twoObjects ∧
      ((Resource.user.endpoint bobCodec).serve bobCodec bobEnv twoObjects {}).2 =
        writeID (lit "u1") ∧
      ((Resource.user.endpoint bobCodec).serve bobCodec bobEnv twoObjects {}).1.proxyUsers =
        [⟨lit "u1", lit "bob", lit "vault/bob", lit "user", true⟩] := by
  refine ⟨twoObjects_malformed _, ?_, ?_⟩
  · rfl
  · rfl

end HelixProxy.Api
