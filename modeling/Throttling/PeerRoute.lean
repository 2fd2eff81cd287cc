import Throttling.PeerSync
import Throttling.ThrottleModule

namespace Throttling
set_option autoImplicit true

/-- The first argument of `app.setGlobalPrefix` in `main.ts`. -/
def globalPrefix : String := "api"

def mountedAt (globalPrefix controllerPath methodPath : String) : String :=
  "/" ++ globalPrefix ++ "/" ++ controllerPath ++ "/" ++ methodPath

structure Origin where
  scheme : String
  host : String
  port : String
  scheme_plain : ':' ∉ scheme.toList
  host_plain : '/' ∉ host.toList
  port_plain : '/' ∉ port.toList

/-- `scheme://host:port` -/
def Origin.url (o : Origin) : String := o.scheme ++ "://" ++ o.host ++ ":" ++ o.port

/-- What of a URL comes after its origin. -/
def urlPath (url : String) : String :=
  String.ofList (((url.toList.dropWhile (· ≠ ':')).drop 3).dropWhile (· ≠ '/'))

def urlOrigin (url : String) : String :=
  String.ofList (url.toList.take (url.toList.length - (urlPath url).toList.length))

structure HttpResponse where
  status : ℕ
  body : Option Snapshot

def HttpResponse.ok (res : HttpResponse) : Bool := 200 ≤ res.status ∧ res.status ≤ 299

namespace ThrottleSyncController

def route : String := mountedAt globalPrefix "internal" "throttle-sync"

/-- A POST to a backend: the route of `sync`, or not found. -/
def handle (internalKey : String) (localBucket : Buckets) (now : ℚ) (path : String)
    (req : PeerRequest) : Buckets × HttpResponse :=
  if path ≠ route then (localBucket, ⟨404, none⟩)
  else if internalKey = "" ∨ req.internalKey ≠ internalKey then (localBucket, ⟨401, none⟩)
  else
    let r := LocalBucketFallback.getSnapshot
      (LocalBucketFallback.mergePeerSnapshot localBucket req.body) now
    (r.1, ⟨201, some r.2⟩)

end ThrottleSyncController

structure PeerNetwork where
  origin : Node → Origin
  internalKey : String
  peerUrls : List String

namespace PeerNetwork

def config (net : PeerNetwork) : PeerSyncConfig := ⟨net.peerUrls, net.internalKey⟩

def listening (net : PeerNetwork) (origin : String) : Option Node :=
  [Node.a, Node.b].find? fun n => (net.origin n).url = origin

def fetch (net : PeerNetwork) (stores : Stores) (now : Node → ℚ) (req : PeerRequest) :
    Stores × Option HttpResponse :=
  match net.listening (urlOrigin req.url) with
  | none => (stores, none)
  | some n =>
    let r := ThrottleSyncController.handle net.internalKey (stores n) (now n) (urlPath req.url) req
    (Function.update stores n r.1, some r.2)

def syncPeer (net : PeerNetwork) (now : Node → ℚ) (localSnapshot : Snapshot) (stores : Stores)
    (peerUrl : String) : Stores :=
  let r := net.fetch stores now (ThrottleModule.fetchFrom net.config localSnapshot peerUrl)
  match r.2 with
  | some ⟨status, some peerSnapshot⟩ =>
    if (HttpResponse.mk status (some peerSnapshot)).ok then r.1.receive .nest .a peerSnapshot
    else r.1
  | _ => r.1

/-- A whole run of `syncWithPeers` on node `a`. -/
def syncWithPeers (net : PeerNetwork) (stores : Stores) (now : Node → ℚ) : Stores :=
  let taken := stores.take .nest .a (now .a)
  net.peerUrls.foldl (net.syncPeer now taken.2) taken.1

variable {net : PeerNetwork} {stores : Stores} {now : Node → ℚ} {e : String}

theorem urlPath_append (o : Origin) (rest : String) :
    urlPath (o.url ++ ("/" ++ rest)) = "/" ++ rest := by
  have hslash : "/".toList = ['/'] := rfl
  have hcolon : ":".toList = [':'] := rfl
  have hsep : "://".toList = [':', '/', '/'] := rfl
  have hscheme : ∀ c ∈ o.scheme.toList, decide (c ≠ ':') = true :=
    fun c hc => decide_eq_true (ne_of_mem_of_not_mem hc o.scheme_plain)
  have hauthority : ∀ c ∈ o.host.toList ++ ':' :: o.port.toList, decide (c ≠ '/') = true := by
    intro c hc
    rcases List.mem_append.1 hc with hc | hc
    · exact decide_eq_true (ne_of_mem_of_not_mem hc o.host_plain)
    · rcases List.mem_cons.1 hc with rfl | hc
      · decide
      · exact decide_eq_true (ne_of_mem_of_not_mem hc o.port_plain)
  have hurl : (o.url ++ ("/" ++ rest)).toList = o.scheme.toList ++
      ':' :: '/' :: '/' :: ((o.host.toList ++ ':' :: o.port.toList) ++ '/' :: rest.toList) := by
    simp [Origin.url, String.toList_append, hslash, hcolon, hsep]
  rw [urlPath, hurl, List.dropWhile_append_of_pos hscheme, List.dropWhile_cons_of_neg (by simp)]
  simp only [List.drop_succ_cons, List.drop_zero]
  rw [List.dropWhile_append_of_pos hauthority, List.dropWhile_cons_of_neg (by simp)]
  apply String.toList_injective
  simp [String.toList_append, hslash]

theorem urlOrigin_append (o : Origin) (rest : String) :
    urlOrigin (o.url ++ ("/" ++ rest)) = o.url := by
  rw [urlOrigin, urlPath_append, String.toList_append, List.length_append, Nat.add_sub_cancel,
    List.take_left' rfl, String.ofList_toList]

/-- The client asks for a path without the prefix, and no route is mounted there. -/
theorem fetch_origin (net : PeerNetwork) (stores : Stores) (now : Node → ℚ) (o : Origin)
    (snap : Snapshot) :
    (net.fetch stores now (ThrottleModule.fetchFrom net.config snap o.url)).1 = stores ∧
      ∀ res ∈ (net.fetch stores now (ThrottleModule.fetchFrom net.config snap o.url)).2,
        res = ⟨404, none⟩ := by
  have hsuffix : "/internal/throttle-sync" = "/" ++ "internal/throttle-sync" := by decide
  have hpath : urlPath (ThrottleModule.fetchFrom net.config snap o.url).url ≠
      ThrottleSyncController.route := by
    rw [ThrottleModule.fetchFrom, hsuffix, urlPath_append]
    decide
  rw [fetch]
  split
  · exact ⟨rfl, fun res hres => by cases hres⟩
  · simp only [ThrottleSyncController.handle, if_pos hpath, Function.update_eq_self, true_and]
    intro res hres
    exact (Option.some.inj hres).symm

theorem syncPeer_origin (o : Origin) (snap : Snapshot) :
    net.syncPeer now snap stores o.url = stores := by
  obtain ⟨hstores, hres⟩ := fetch_origin net stores now o snap
  simp only [syncPeer]
  split
  · next status peerSnapshot hsome =>
    cases hres _ hsome
  · exact hstores

theorem syncWithPeers_origins (hurls : ∀ url ∈ net.peerUrls, ∃ o : Origin, url = o.url) :
    net.syncWithPeers stores now = (stores.take .nest .a (now .a)).1 := by
  have hloop : ∀ (urls : List String) (s : Stores), (∀ url ∈ urls, ∃ o : Origin, url = o.url) →
      urls.foldl (net.syncPeer now (stores.take .nest .a (now .a)).2) s = s := by
    intro urls
    induction urls with
    | nil => exact fun s _ => rfl
    | cons url urls ih =>
      intro s h
      obtain ⟨o, rfl⟩ := h url List.mem_cons_self
      rw [List.foldl_cons, syncPeer_origin]
      exact ih s fun url hurl => h url (List.mem_cons_of_mem _ hurl)
  exact hloop _ _ hurls

theorem fetch_prefixed (hne : (net.origin .a).url ≠ (net.origin .b).url)
    (hkey : net.internalKey ≠ "") (snap : Snapshot) :
    net.fetch stores now
        (ThrottleModule.fetchFrom net.config snap ((net.origin .b).url ++ "/api")) =
      let answer := (stores.receive .nest .b snap).take .nest .b (now .b)
      (answer.1, some ⟨201, some answer.2⟩) := by
  have hurl : (net.origin .b).url ++ "/api" ++ "/internal/throttle-sync" =
      (net.origin .b).url ++ ("/" ++ "api/internal/throttle-sync") := by
    rw [String.append_assoc]
    rfl
  have horigin : urlOrigin ((net.origin .b).url ++ "/api" ++ "/internal/throttle-sync") =
      (net.origin .b).url := by
    rw [hurl, urlOrigin_append]
  have hpath : urlPath ((net.origin .b).url ++ "/api" ++ "/internal/throttle-sync") =
      ThrottleSyncController.route := by
    rw [hurl, urlPath_append]
    decide
  have hlistening : net.listening (net.origin .b).url = some .b := by
    simp [listening, hne]
  simp only [fetch, ThrottleModule.fetchFrom, horigin, hlistening, hpath,
    ThrottleSyncController.handle, config, hkey, ne_eq, not_true_eq_false, or_self, if_false,
    Stores.take, Stores.receive, Function.update_idem, Function.update_self]
  rfl

/-- Were the peer listed with the prefix of its routes, a run would be the complete exchange. -/
theorem syncWithPeers_prefixed (hurls : net.peerUrls = [(net.origin .b).url ++ "/api"])
    (hne : (net.origin .a).url ≠ (net.origin .b).url) (hkey : net.internalKey ≠ "") (t : ℚ) :
    net.syncWithPeers stores (fun _ => t) = stores.syncOnce .nest .a t := by
  simp only [syncWithPeers, hurls, List.foldl_cons, List.foldl_nil, syncPeer,
    fetch_prefixed hne hkey]
  rfl

/-- The exchange leaves both nodes with the lesser count of each entity just where they had the
same counts before. -/
theorem exchange_iff (hurls : ∀ url ∈ net.peerUrls, ∃ o : Origin, url = o.url)
    (hlive : ∀ e v, (stores .a).lookup e = some v → Backend.nest.live (now .a) v = true) :
    (∀ m e, ((net.syncWithPeers stores now) m).lookup e =
      Stores.meet ((stores m).lookup e) ((stores m.peer).lookup e)) ↔
    ∀ e v w, (stores .a).lookup e = some v → (stores .b).lookup e = some w →
      v.tokens = w.tokens := by
  have hkept : ∀ m e, ((net.syncWithPeers stores now) m).lookup e = (stores m).lookup e := by
    intro m e
    rw [syncWithPeers_origins hurls]
    exact Stores.take_lookup m (hlive e)
  simp only [hkept]
  constructor
  · intro h e v w hv hw
    have ha := h .a e
    have hb := h .b e
    simp only [Node.peer, hv, hw, Stores.meet, Option.map_some, Option.elim_some,
      Option.some.injEq] at ha hb
    have hva : v.tokens ≤ w.tokens := by
      rw [ha]
      exact min_le_right _ _
    have hwb : w.tokens ≤ v.tokens := by
      rw [hb]
      exact min_le_right _ _
    exact le_antisymm hva hwb
  · intro h m e
    cases hv : (stores m).lookup e with
    | none => rfl
    | some v =>
      cases hw : (stores m.peer).lookup e with
      | none => rfl
      | some w =>
        have hsame : v.tokens = w.tokens := by
          cases m with
          | a => exact h e v w hv hw
          | b => exact (h e w v hw hv).symm
        simp [Stores.meet, lower, ← hsame]

/-- Two servers as in `.env.example`. -/
def server (host : String) (h : '/' ∉ host.toList) : Origin :=
  ⟨"http", host, "3000", by decide +kernel, h, by decide⟩

def twoServers : PeerNetwork :=
  ⟨fun | .a => server "server-1" (by decide) | .b => server "server-2" (by decide),
    "change-me-in-production", ["http://server-2:3000"]⟩

def diverged : Stores
  | .a => AList.insert "u" ⟨50, 0⟩ ∅
  | .b => AList.insert "u" ⟨0, 0⟩ ∅

theorem exchange_iff_diverged :
    (∀ m e, ((twoServers.syncWithPeers diverged fun _ => 100) m).lookup e =
      Stores.meet ((diverged m).lookup e) ((diverged m.peer).lookup e)) ↔
    ∀ e v w, (diverged .a).lookup e = some v → (diverged .b).lookup e = some w →
      v.tokens = w.tokens :=
  exchange_iff
    (by
      intro url hurl
      exact ⟨server "server-2" (by decide), List.mem_singleton.1 hurl⟩)
    (by
      intro e v hv
      rw [diverged, Dict.lookup_insert] at hv
      split at hv
      · obtain rfl := Option.some.inj hv
        decide +kernel
      · cases hv)

/-- The peer has used up an entity's tokens and answers with status 404. -/
theorem exchange_merges_nothing :
    (twoServers.origin .b).url ∈ twoServers.peerUrls ∧ twoServers.internalKey ≠ "" ∧
      ((twoServers.syncWithPeers diverged fun _ => 100) .a).lookup "u" = some ⟨50, 0⟩ ∧
      ((twoServers.syncWithPeers diverged fun _ => 100) .b).lookup "u" = some ⟨0, 0⟩ := by
  refine ⟨by decide, by decide, by decide +kernel, by decide +kernel⟩

end PeerNetwork

end Throttling
