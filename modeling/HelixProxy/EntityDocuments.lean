import HelixProxy.JsonWrite
import HelixProxy.RequestBodies
import HelixProxy.StoredRows

/-!
# The documents of the control API

`profileToDTO` and its like with `writeJSON` behind them: the object that a client
gets for a row. `decodeJSON` makes of it the DTO with the values of the row,
provided that the texts of the row are well formed.
-/

namespace HelixProxy.Store

set_option autoImplicit false

def VPNType.text : VPNType → Bytes
  | .wireguard => lit "wireguard"
  | .openvpn => lit "openvpn"
  | .legacy => lit "legacy"

end HelixProxy.Store

namespace HelixProxy.Api

open Store JsonText Utf8
set_option autoImplicit false

/-- How rows reach a client: what the server reads them as, and the value and the
text of a stored `config` once `encoding/json` has compacted it. -/
structure View where
  rd : Store.Reader
  config : Json → Value × Bytes

/-! The members of the DTOs, in the order of their fields. -/

def profileToDTO (view : View) (p : VPNProfile) : List Member :=
  (Member.string (lit "id") p.id).omitted p.id.isEmpty ++
    ([.string (lit "name") p.name] ++
    ((Member.string (lit "type") p.type.text).omitted p.type.text.isEmpty ++
    ((match p.config with
      | .document j => [⟨lit "config", (view.config j).1, (view.config j).2⟩]
      | _ => []) ++
    ((Member.string (lit "secret_ref") p.secretRef).omitted p.secretRef.isEmpty ++
    [.bool (lit "enabled") p.enabled]))))

def targetToDTO (h : TargetHost) : List Member :=
  (Member.string (lit "id") h.id).omitted h.id.isEmpty ++
    ([.string (lit "public_alias") h.publicAlias] ++
    ([.string (lit "private_ip") h.privateIP] ++
    ((Member.int (lit "port") h.port).omitted (h.port = 0) ++
    ((Member.string (lit "protocol") h.protocol).omitted h.protocol.isEmpty ++
    ((Member.string (lit "vpn_profile_id") h.vpnProfileID).omitted h.vpnProfileID.isEmpty ++
    ((Member.string (lit "health_check") h.healthCheck).omitted h.healthCheck.isEmpty ++
    [.bool (lit "enabled") h.enabled]))))))

def ruleToDTO (r : ProxyRule) : List Member :=
  (Member.string (lit "id") r.id).omitted r.id.isEmpty ++
    ([.int (lit "priority") r.priority] ++
    ((Member.string (lit "match_host") r.matchHost).omitted r.matchHost.isEmpty ++
    ((Member.string (lit "match_path") r.matchPath).omitted r.matchPath.isEmpty ++
    ((Member.string (lit "target_host_id") r.targetHostID).omitted r.targetHostID.isEmpty ++
    [.bool (lit "enabled") r.enabled]))))

/-- What `listTiers` makes of a tier. -/
def tierToDTO (x : TargetTunnelTier) : List Member :=
  [.string (lit "target_id") x.targetID] ++
    ([.string (lit "vpn_profile_id") x.vpnProfileID] ++ [.int (lit "tier") x.tier])

def userToDTO (u : ProxyUser) : List Member :=
  (Member.string (lit "id") u.id).omitted u.id.isEmpty ++
    ([.string (lit "username") u.username] ++
    ((Member.string (lit "secret_ref") u.secretRef).omitted u.secretRef.isEmpty ++
    ((Member.string (lit "role") u.role).omitted u.role.isEmpty ++
    [.bool (lit "enabled") u.enabled])))

/-- The encoder ends what it writes with a line break. -/
def writeJSON (members : List Member) : Bytes := writeObject members ++ lit "\n"

theorem decodeJSON_writeJSON {δ : Type} {codec : Codec} {fields : List (StructField δ)} {zero d : δ}
    {members : List Member} (hmembers : ∀ m ∈ members, m.Faithful memberDepth)
    (h : Decodes fields (fun _ => none) members zero d) :
    decodeJSON codec fields zero (writeJSON members) = .ok d :=
  Endpoint.decodeJSON_eq_ok_iff.mpr ⟨_, _, readDocument_writeObject hmembers _, h⟩

theorem fits_int64 {n : Int} (h : FitsInteger n) : Strconv.minInt64 ≤ n ∧ n ≤ Strconv.maxInt64 := by
  obtain ⟨hlow, hhigh⟩ := h
  constructor
  · exact le_trans (by decide) hlow
  · exact le_trans (Int.le_of_lt hhigh) (by decide)

/-- What is taken of the server: one form for a uuid, which is a text like that of an
address; no address in white space; and a normal form for a `config`, which the column
keeps once more as it is and which comes back as a text of it that leaves the object
around it room in the decoder. -/
structure ServerText (pg : Server) (codec : Codec) (view : View) : Prop where
  uuid : UuidText pg
  uuid_text : ∀ s u, pg.uuid s = some u → WellFormed u
  inet_text : ∀ s ip, pg.inet s = some ip → WellFormed (view.rd.host ip)
  inet_blank : ∀ s, Strings.trimSpace s = [] → pg.inet s = none
  config_normal : ∀ given kept, pg.jsonb given = some kept → pg.jsonb kept = some kept
  config_text : ∀ given kept, pg.jsonb given = some kept →
    (view.config kept).2 ∈ texts memberDepth (view.config kept).1
  config_value : ∀ given kept, pg.jsonb given = some kept →
    toJson codec.float (view.config kept).1 = kept

section Documents

variable {pg : Server} {codec : Codec} {view : View} (hpg : ServerText pg codec view)
include hpg

theorem ServerText.nullable_text {u : Bytes} (h : pg.nullableUUID u = some u) : WellFormed u := by
  unfold Server.nullableUUID at h
  split at h
  · next hu =>
    rw [hu]
    decide
  · exact hpg.uuid_text u u h

theorem decodeJSON_profile {p : VPNProfile} (hp : StoredProfile pg p) :
    decodeJSON codec (profileFields codec) { name := [] } (writeJSON (profileToDTO view p)) =
      .ok ⟨p.name, p.type.text, p.config, p.secretRef, p.enabled⟩ := by
  obtain ⟨given, kept, hjsonb, hconfig⟩ := hp.config
  have hid := hpg.uuid_text _ _ hp.id
  have htype : WellFormed p.type.text := by
    cases p.type <;> decide
  have hkey : WellFormed (lit "config") := by decide
  apply decodeJSON_writeJSON
  · simp only [profileToDTO, hconfig, List.forall_mem_append, List.forall_mem_singleton]
    exact ⟨(Member.faithful_string (by decide) hid).omitted _,
      Member.faithful_string (by decide) hp.name.fits.wellFormed,
      (Member.faithful_string (by decide) htype).omitted _,
      ⟨hkey, hpg.config_text given kept hjsonb⟩,
      (Member.faithful_string (by decide) hp.secretRef.fits.wellFormed).omitted _,
      Member.faithful_bool (by decide) _⟩
  · have hdecoded : Decodes (profileFields codec) (fun _ => none) (profileToDTO view p)
        { name := [] } ⟨p.name, p.type.text,
          .document (toJson codec.float (view.config kept).1), p.secretRef, p.enabled⟩ := by
      unfold profileToDTO
      rw [hconfig]
      exact Decodes.congr ((decodes_nonempty rfl rfl hid).append
        ((decodes_string rfl hp.name.fits.wellFormed).append
        ((decodes_nonempty rfl rfl htype).append (Decodes.append (decodes_one rfl rfl)
          ((decodes_nonempty rfl rfl hp.secretRef.fits.wellFormed).append
            (decodes_bool rfl _)))))) rfl
    rwa [hpg.config_value given kept hjsonb, ← hconfig] at hdecoded

theorem decodeJSON_target {h : TargetHost} (hh : StoredTarget pg h)
    (hport : 1 ≤ h.port ∧ h.port ≤ 65535) :
    decodeJSON codec targetFields { publicAlias := [], privateIP := [] }
        (writeJSON (targetToDTO (view.rd.target h))) =
      .ok ⟨h.publicAlias, view.rd.host h.privateIP, h.port, h.protocol, h.vpnProfileID,
        h.healthCheck, h.enabled⟩ := by
  obtain ⟨s, hs⟩ := hh.privateIP
  have hid := hpg.uuid_text _ _ hh.id
  have hprofile := hpg.nullable_text hh.vpnProfileID
  have hint : Strconv.minInt64 ≤ h.port ∧ h.port ≤ Strconv.maxInt64 := by
    constructor
    · exact le_trans (by decide) hport.1
    · exact le_trans hport.2 (by decide)
  apply decodeJSON_writeJSON
  · simp only [targetToDTO, Reader.target, List.forall_mem_append, List.forall_mem_singleton]
    exact ⟨(Member.faithful_string (by decide) hid).omitted _,
      Member.faithful_string (by decide) hh.publicAlias.fits.wellFormed,
      Member.faithful_string (by decide) (hpg.inet_text _ _ hs),
      (Member.faithful_int (by decide) _).omitted _,
      (Member.faithful_string (by decide) hh.protocol.fits.wellFormed).omitted _,
      (Member.faithful_string (by decide) hprofile).omitted _,
      (Member.faithful_string (by decide) hh.healthCheck.fits.wellFormed).omitted _,
      Member.faithful_bool (by decide) _⟩
  · have hnonzero : decide (h.port = 0) = true → False := by
      intro hzero
      have := of_decide_eq_true hzero
      omega
    exact Decodes.congr ((decodes_nonempty rfl rfl hid).append
        ((decodes_string rfl hh.publicAlias.fits.wellFormed).append
        ((decodes_string rfl (hpg.inet_text _ _ hs)).append
          (((decodes_int rfl hint).omitted fun hz => (hnonzero hz).elim).append
            ((decodes_nonempty rfl rfl hh.protocol.fits.wellFormed).append
              ((decodes_nonempty rfl rfl hprofile).append
                ((decodes_nonempty rfl rfl hh.healthCheck.fits.wellFormed).append
                  (decodes_bool rfl _)))))))) rfl

theorem decodeJSON_rule {r : ProxyRule} (hr : StoredRule pg r) :
    decodeJSON codec ruleFields {} (writeJSON (ruleToDTO r)) =
      .ok ⟨r.id, r.priority, r.matchHost, r.matchPath, r.targetHostID, r.enabled⟩ := by
  have hid := hpg.uuid_text _ _ hr.id
  have htarget := hpg.nullable_text hr.targetHostID
  apply decodeJSON_writeJSON
  · simp only [ruleToDTO, List.forall_mem_append, List.forall_mem_singleton]
    exact ⟨(Member.faithful_string (by decide) hid).omitted _,
      Member.faithful_int (by decide) _,
      (Member.faithful_string (by decide) hr.matchHost.fits.wellFormed).omitted _,
      (Member.faithful_string (by decide) hr.matchPath.fits.wellFormed).omitted _,
      (Member.faithful_string (by decide) htarget).omitted _,
      Member.faithful_bool (by decide) _⟩
  · exact Decodes.congr ((decodes_nonempty rfl rfl hid).append
      ((decodes_int rfl (fits_int64 hr.priority)).append
        ((decodes_nonempty rfl rfl hr.matchHost.fits.wellFormed).append
          ((decodes_nonempty rfl rfl hr.matchPath.fits.wellFormed).append
            ((decodes_nonempty rfl rfl htarget).append (decodes_bool rfl _)))))) rfl

theorem decodeJSON_tier {x : TargetTunnelTier} (hx : StoredTier pg x) :
    decodeJSON codec tierFields {} (writeJSON (tierToDTO x)) =
      .ok ⟨x.targetID, x.vpnProfileID, x.tier⟩ := by
  have htarget := hpg.uuid_text _ _ hx.targetID
  have hprofile := hpg.uuid_text _ _ hx.vpnProfileID
  apply decodeJSON_writeJSON
  · simp only [tierToDTO, List.forall_mem_append, List.forall_mem_singleton]
    exact ⟨Member.faithful_string (by decide) htarget, Member.faithful_string (by decide) hprofile,
      Member.faithful_int (by decide) _⟩
  · exact Decodes.congr ((decodes_string rfl htarget).append ((decodes_string rfl hprofile).append
      (decodes_int rfl (fits_int64 hx.tier)))) rfl

theorem decodeJSON_user {u : ProxyUser} (hu : StoredUser pg u) :
    decodeJSON codec userFields { username := [] } (writeJSON (userToDTO u)) =
      .ok ⟨u.username, u.secretRef, u.role, u.enabled⟩ := by
  have hid := hpg.uuid_text _ _ hu.id
  apply decodeJSON_writeJSON
  · simp only [userToDTO, List.forall_mem_append, List.forall_mem_singleton]
    exact ⟨(Member.faithful_string (by decide) hid).omitted _,
      Member.faithful_string (by decide) hu.username.fits.wellFormed,
      (Member.faithful_string (by decide) hu.secretRef.fits.wellFormed).omitted _,
      (Member.faithful_string (by decide) hu.role.fits.wellFormed).omitted _,
      Member.faithful_bool (by decide) _⟩
  · exact Decodes.congr ((decodes_nonempty rfl rfl hid).append
      ((decodes_string rfl hu.username.fits.wellFormed).append
        ((decodes_nonempty rfl rfl hu.secretRef.fits.wellFormed).append
          ((decodes_nonempty rfl rfl hu.role.fits.wellFormed).append (decodes_bool rfl _))))) rfl

end Documents

end HelixProxy.Api
