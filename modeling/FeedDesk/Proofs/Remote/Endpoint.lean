import FeedDesk.Proofs.Url.Paths
import FeedDesk.Remote.Client
import FeedDesk.Url.PlainDomain

/-!
# Where calls go

The path of a server's address counts as a directory, and calls go to a name in it. So an endpoint
keeps every segment of the path, and neither query and fragment nor a slash at the end of the
address make a difference to it.
-/
namespace FeedDesk

open Url

/-! ## Addresses of servers -/

namespace Address

theorem read_of_feed [DomainMapping] {text : String} {u : Url} (h : feed text = .ok u) :
    Url.read (Text.trim text) = .ok (.web u) := by
  unfold feed at h
  split at h
  · cases h
  · cases h
  · next hread =>
    split at h
    · cases h
    · obtain rfl := Except.ok.inj h
      exact hread

theorem feed_of_server [DomainMapping] {text : String} {u : Url} (h : server text = .ok u) :
    feed text = .ok u ∧ u.hasCredentials = false := by
  unfold server at h
  obtain ⟨v, hfeed, h⟩ := ok_of_bind h
  split at h
  · cases h
  · next hopen =>
    obtain rfl := Except.ok.inj h
    exact ⟨hfeed, by simpa using hopen⟩

theorem shape_of_server [DomainMapping] {text : String} {u : Url} (h : server text = .ok u) :
    IsPath u.path ∧ u.username = "" ∧ u.password = none := by
  obtain ⟨hfeed, hopen⟩ := feed_of_server h
  have hcredentials : u.username = "" ∧ u.password = none := by
    simpa [hasCredentials] using hopen
  exact ⟨isPath_of_read (read_of_feed hfeed), hcredentials⟩

end Address

/-! ## Endpoints -/

/-- The address `e` is that of the calls to the server at `u`. -/
structure Url.IsEndpointOf (e u : Url) : Prop where
  scheme_eq : e.scheme = u.scheme
  host_eq : e.host = u.host
  port_eq : e.port = u.port
  username_eq : e.username = ""
  password_eq : e.password = none
  query_eq : e.query = none
  fragment_eq : e.fragment = none
  path_eq : e.path = u.directory ++ ["jsonrpc"]
  pathText_eq : e.pathText = u.basePath ++ "jsonrpc"
  text_eq : e.text = u.scheme ++ "://" ++ u.host.text ++ u.portText ++ u.basePath ++ "jsonrpc"

namespace Url

variable {u v : Url}

theorem isSegment_jsonrpc : IsSegment "jsonrpc".toList := by
  have hall : "jsonrpc".toList.all isPlain = true := by decide
  exact ⟨fun c hc => isPlain_iff.mp (List.all_eq_true.mp hall c hc), rfl, rfl⟩

theorem endpoint_eq (h : IsPath u.path) :
    u.asDirectory.join "jsonrpc" =
      { u with path := u.directory ++ ["jsonrpc"], query := none, fragment := none } := by
  rw [join_name _ isSegment_jsonrpc, asDirectory_eq h, List.dropLast_concat]

theorem isEndpointOf (h : IsPath u.path) (hname : u.username = "") (hsecret : u.password = none) :
    (u.asDirectory.join "jsonrpc").IsEndpointOf u := by
  have hpath : slashed (u.directory ++ ["jsonrpc"]) = u.basePath ++ "jsonrpc" := by
    rw [basePath_eq h, slashed_append, slashed_append, String.append_assoc]
    rfl
  rw [endpoint_eq h]
  refine ⟨rfl, rfl, rfl, hname, hsecret, rfl, rfl, rfl, hpath, ?_⟩
  have hcredentials : u.credentialsText = "" := by
    rw [credentialsText, hsecret, hname]
    rfl
  change u.scheme ++ "://" ++ u.credentialsText ++ u.host.text ++ u.portText ++
    slashed (u.directory ++ ["jsonrpc"]) ++ "" = _
  rw [hcredentials, hpath, String.append_empty, String.append_empty]
  simp only [String.append_assoc]

theorem basePath_congr (h : v.pathText = u.pathText ∨
    u.pathText.toList.getLast? ≠ some '/' ∧ v.pathText = u.pathText ++ "/") :
    v.basePath = u.basePath := by
  rcases h with hsame | ⟨hend, hslash⟩
  · rw [basePath, basePath, hsame]
  · have hends : (u.pathText ++ "/").toList.getLast? = some '/' := by
      rw [String.toList_append, List.getLast?_append]
      rfl
    rw [basePath, basePath, hslash, if_pos hends, if_neg hend]

theorem directory_inj (hu : IsPath u.path) (hv : IsPath v.path) :
    v.basePath = u.basePath ↔ v.directory = u.directory := by
  rw [basePath_eq hu, basePath_eq hv, slashed_inj (isPath_directory hv isSegment_empty)
    (isPath_directory hu isSegment_empty), List.append_cancel_right_eq]

theorem endpoint_inj (hu : IsPath u.path) (hv : IsPath v.path)
    (hname : u.username = v.username) (hsecret : u.password = v.password) :
    v.asDirectory.join "jsonrpc" = u.asDirectory.join "jsonrpc" ↔
      v.scheme = u.scheme ∧ v.host = u.host ∧ v.port = u.port ∧ v.basePath = u.basePath := by
  rw [endpoint_eq hu, endpoint_eq hv, directory_inj hu hv]
  simp [hname, hsecret]

end Url

namespace Client

theorem ofConfig_of_server [DomainMapping] {c : Config} {u : Url}
    (h : Address.server c.serverUrl = .ok u) :
    ∃ client, ofConfig c = .ok client ∧ client.endpoint = u.asDirectory.join "jsonrpc" := by
  rw [ofConfig, h]
  exact ⟨_, rfl, rfl⟩

/-- Whatever mapping names are written in ASCII by, a server's address that is accepted gives an
endpoint of the same scheme, host and port, without user, query or fragment, whose path is that of
the address, with a slash behind it unless it ends in one, and the name of the calls. Two addresses
give the same endpoint exactly if they agree in scheme, host, port and path up to a final slash. -/
theorem endpoint_below_server [DomainMapping] {c : Config} {u : Url}
    (h : Address.server c.serverUrl = .ok u) :
    ∃ client, ofConfig c = .ok client ∧ client.endpoint.IsEndpointOf u ∧
      (u.path = u.directory ∨ u.path = u.directory ++ [""]) ∧
      ∀ (other : Config) (v : Url), Address.server other.serverUrl = .ok v →
        ∃ client', ofConfig other = .ok client' ∧
          (client'.endpoint = client.endpoint ↔
            v.scheme = u.scheme ∧ v.host = u.host ∧ v.port = u.port ∧ v.basePath = u.basePath) ∧
          (v.scheme = u.scheme → v.host = u.host → v.port = u.port →
            (v.pathText = u.pathText ∨
              u.pathText.toList.getLast? ≠ some '/' ∧ v.pathText = u.pathText ++ "/") →
            client'.endpoint = client.endpoint) := by
  obtain ⟨hpath, hname, hsecret⟩ := Address.shape_of_server h
  obtain ⟨client, hclient, hendpoint⟩ := ofConfig_of_server h
  refine ⟨client, hclient, hendpoint ▸ isEndpointOf hpath hname hsecret, ?_, ?_⟩
  · rw [directory]
    split
    · next hend => exact .inr (List.dropLast_append_getLast? "" hend).symm
    · exact .inl rfl
  · intro other v hv
    obtain ⟨hpath', hname', hsecret'⟩ := Address.shape_of_server hv
    obtain ⟨client', hclient', hendpoint'⟩ := ofConfig_of_server hv
    have hsame : client'.endpoint = client.endpoint ↔
        v.scheme = u.scheme ∧ v.host = u.host ∧ v.port = u.port ∧ v.basePath = u.basePath := by
      rw [hendpoint, hendpoint']
      exact endpoint_inj hpath hpath' (hname.trans hname'.symm) (hsecret.trans hsecret'.symm)
    exact ⟨client', hclient', hsame, fun hscheme hhost hport hbase =>
      hsame.mpr ⟨hscheme, hhost, hport, basePath_congr hbase⟩⟩

/-- Plain names, and one with a letter beyond ASCII. -/
@[reducible]
def bookshopDomains : DomainMapping where
  toAscii? bytes :=
    if bytes = "b\u00fccher.example".toUTF8.toList then some "xn--bcher-kva.example".toList
    else plainName? bytes

def bookshopConfig : Config := { serverUrl := "http://b\u00fccher.example:6789/nzbget?x=1" }

theorem endpoint_below_bookshop : ∃ u client,
    @Address.server bookshopDomains bookshopConfig.serverUrl = .ok u ∧
      @ofConfig bookshopDomains bookshopConfig = .ok client ∧
      client.endpoint.text = "http://xn--bcher-kva.example:6789/nzbget/jsonrpc" := by
  have hread : @Address.server bookshopDomains bookshopConfig.serverUrl = .ok
      { scheme := "http", host := .domain "xn--bcher-kva.example", port := some 6789,
        path := ["nzbget"], query := some "x=1" } := by
    decide +kernel
  obtain ⟨client, hclient, hendpoint, -⟩ := @endpoint_below_server bookshopDomains _ _ hread
  exact ⟨_, client, hread, hclient, hendpoint.text_eq.trans (by decide +kernel)⟩

end Client

end FeedDesk
