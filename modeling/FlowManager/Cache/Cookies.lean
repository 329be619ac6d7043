import FlowManager.Cache.Memory
import FlowManager.Text.Url

/-!
# Cookies in the cache (flow/http.go)

`httpRequest` puts the cookies of an answer into a variable, and may keep them in the cache of the
flows: then another request for the same URL and variable takes them from there. The key is made of
the URL as it stands in the schema, and what is taken from the cache is not the text but the
`CacheValue` around it, which the connection prints.

- `httpRequest`: the calls of the cache that a request makes, and what the variable receives.
- `cookieExpiresAfter_spec`: how long the cookies are kept.
- `transparent_iff`: the cookies in the cache are those of the URL unless the cache is used.
- `cookies_expire`: when the cookies in the cache expire with the cookies.
-/

namespace FlowManager.Cookies

open FlowCache Lru

/-- A value in the cache. The code does not keep `origin`: the URL whose answer had the cookies. -/
structure Stored where
  text : String
  origin : Option Text.Bytes

/-- What `%v` prints for the `*CacheValue` of a text -/
def Stored.printed (s : Stored) : String := "&\x7b" ++ s.text ++ "\x7d"

structure Response where
  /-- the lines of `Set-Cookie`, if there are any -/
  setCookie : Option (List String)
  /-- `Expires` of the cookies in them, in Unix time -/
  expires : List (Option Int)
  /-- A year has four digits. -/
  dated : ∀ e, some e ∈ expires → e ≤ 253402300799

structure Request where
  domainId : Int
  url : Text.Bytes
  path : Option Text.PathMap
  exportCookie : String
  cacheCookie : Bool
  globals : Text.Globals
  conn : Text.CallParser
  /-- the answer, if there is one -/
  response : Option Response

/-- The URL that is asked for -/
def Request.target (r : Request) : Except AppError Text.Bytes :=
  Text.requestUrl r.globals r.conn r.url r.path

/-- `Unix` of a time that is not set -/
def zeroTime : Int := -62135596800

/-- The seconds up to an hour before a cookie expires -/
def expiresAfter (now : Int) (e : Option Int) : Int := e.getD zeroTime - now - 3600

/-- How long the cookies of an answer are kept -/
def cookieExpiresAfter (now : Int) (expires : List (Option Int)) : Int :=
  expires.foldl (fun least e =>
    if 0 < expiresAfter now e ∧ (least = 0 ∨ expiresAfter now e < least) then expiresAfter now e
    else least) 0

inductive Result where
  | failed
  /-- what the variable gets from the cache -/
  | cached (value : String)
  /-- what it gets from the answer -/
  | sent (value : Option String)
  deriving DecidableEq

section Model

variable (md5 : Text.Bytes → String) (redis : Bool)

def Request.cacheKey (r : Request) : String := md5 r.url ++ "." ++ r.exportCookie

/-- A call for the entry of a request -/
def Request.call (r : Request) (action : Action Stored) : Call Stored :=
  ⟨"memory", r.domainId, r.cacheKey md5, action⟩

/-- The part of `httpRequest` that sends the request: what is stored, and the result -/
def Request.send (now : Int) (r : Request) : List (Call Stored) × Result :=
  match r.target, r.response with
  | .ok target, some res =>
    match res.setCookie with
    | some lines =>
      if r.exportCookie = "" then ([], .sent none)
      else
        let cookie := ";".intercalate lines
        (if r.cacheCookie = true then
          [r.call md5 (.set (some ⟨cookie, some target⟩) (cookieExpiresAfter now res.expires))]
          else [],
          .sent (some cookie))
    | none => ([], .sent none)
  | _, _ => ([], .failed)

/-- `httpRequest`, as far as cookies go: the calls of the cache, and what the variable receives -/
def httpRequest (m : MemoryCache Stored) (now : Int) (r : Request) : List (Call Stored) × Result :=
  if r.url = [] then ([], .failed)
  else if r.exportCookie ≠ "" ∧ r.cacheCookie = true then
    match ((r.call md5 .get).exec redis m now).2 with
    | .got (.ok v) => ([r.call md5 .get], .cached v.printed)
    | _ => (r.call md5 .get :: (r.send md5 now).1, (r.send md5 now).2)
  else r.send md5 now

end Model

variable {md5 : Text.Bytes → String} {redis : Bool} {m : MemoryCache Stored} {now : Int}
  {r : Request}

/-- The cache is used exactly if it is asked and has the entry. -/
theorem cached_iff : (httpRequest md5 redis m now r).2 = .cached v ↔
    r.url ≠ [] ∧ (r.exportCookie ≠ "" ∧ r.cacheCookie = true) ∧
      ∃ s, ((r.call md5 .get).exec redis m now).2 = .got (.ok s) ∧ s.printed = v := by
  have hsend : (r.send md5 now).2 ≠ .cached v := by
    unfold Request.send
    split
    · split
      · split <;> nofun
      · nofun
    · nofun
  unfold httpRequest
  split
  · simp_all
  · split
    · split
      · simp_all
      · simp_all
    · simp_all

/-! ## The text in the variable -/

theorem Stored.printed_ne (s : Stored) : s.printed ≠ s.text := by
  intro h
  have hlength := congrArg String.length h
  simp only [printed, String.length_append] at hlength
  have hopen : ("&\x7b" : String).length = 2 := rfl
  omega

/-- If the cache is used, the variable receives the text of the entry, and the entry is for the URL
that would be asked for. -/
def Transparent (md5 : Text.Bytes → String) (redis : Bool) (m : MemoryCache Stored) (now : Int)
    (r : Request) : Prop :=
  ∀ v s, (httpRequest md5 redis m now r).2 = .cached v →
    ((r.call md5 .get).exec redis m now).2 = .got (.ok s) →
    v = s.text ∧ ∃ target, r.target = .ok target ∧ s.origin = some target

/-- After any calls of the cache, it is transparent exactly if it is not used: there is no URL,
no variable is named for the cookies, caching is off, or there is no entry for the domain under the
key. If it is used, the variable receives the last text that was set for the domain under the key,
but in braces. -/
theorem transparent_iff (md5 : Text.Bytes → String) (redis : Bool) (size : Nat)
    (defaultExpiry : Int) (calls : List (Int × Call Stored)) (now : Int) (r : Request) :
    let m := execAll redis (newLru size defaultExpiry) calls
    (Transparent md5 redis m now r ↔ r.url = [] ∨ r.exportCookie = "" ∨ r.cacheCookie = false ∨
      ∀ s, ((r.call md5 .get).exec redis m now).2 ≠ .got (.ok s)) ∧
      ∀ v, (httpRequest md5 redis m now r).2 = .cached v → ∃ s, v = s.printed ∧
        LastSet redis (fun x => x.domainId = r.domainId ∧ x.key = r.cacheKey md5) calls
          (some s) := by
  intro m
  refine ⟨⟨fun h => ?_, fun h v s hv _ => ?_⟩, fun v hv => ?_⟩
  · by_contra hused
    simp only [not_or, not_forall, not_not, Bool.not_eq_false] at hused
    obtain ⟨hurl, hexport, hcache, s, hfound⟩ := hused
    have hcached := cached_iff.mpr ⟨hurl, ⟨hexport, hcache⟩, s, hfound, rfl⟩
    exact s.printed_ne (h _ s hcached hfound).1
  · obtain ⟨hurl, ⟨hexport, hcache⟩, s, hfound, -⟩ := cached_iff.mp hv
    rcases h with h | h | h | h
    · exact absurd h hurl
    · exact absurd h hexport
    · cases hcache.symm.trans h
    · exact absurd hfound (h s)
  · obtain ⟨-, -, s, hfound, rfl⟩ := cached_iff.mp hv
    exact ⟨s, rfl, lastSet_of_outcome hfound⟩

/-- An answer with a cookie that expires -/
def cookieUntil (e : Int) (h : e ≤ 253402300799) : Response where
  setCookie := some ["a=1"]
  expires := [some e]
  dated _ he := by
    cases List.mem_singleton.mp he
    exact h

/-- A request for the page of a customer, and its answer -/
def pageOf (customer : String) (res : Response) : Request where
  domainId := 1
  url := Text.ascii "/$\x7bid\x7d"
  path := none
  exportCookie := "c"
  cacheCookie := true
  globals _ := []
  conn := ⟨⟨fun _ => (Text.ascii customer, true)⟩, none⟩
  response := some res

/-- The second customer gets the cookies of the first, in braces. -/
theorem transparent_iff_customers :
    let first := pageOf "1" (cookieUntil 7200 (by decide))
    let second := pageOf "2" (cookieUntil 7200 (by decide))
    let m := execAll false (newLru 10 0)
      ((httpRequest (fun _ => "k") false (newLru 10 0) 0 first).1.map (0, ·))
    (httpRequest (fun _ => "k") false (newLru 10 0) 0 first).2 = .sent (some "a=1") ∧
      (httpRequest (fun _ => "k") false m 1 second).2 = .cached "&\x7ba=1\x7d" ∧
      first.target = .ok (Text.ascii "/1") ∧ second.target = .ok (Text.ascii "/2") := by
  decide +kernel

/-! ## How long cookies are kept -/

/-- Nothing is kept longer than up to an hour before a cookie expires, of those that do not expire
within the hour. If there are none of these, no time is given. -/
theorem cookieExpiresAfter_spec (now : Int) (expires : List (Option Int)) :
    let least := cookieExpiresAfter now expires
    (∀ e ∈ expires, 0 < expiresAfter now e → 0 < least ∧ least ≤ expiresAfter now e) ∧
      (least = 0 ∨ 0 < least ∧ ∃ e ∈ expires, least = expiresAfter now e) := by
  induction expires using List.reverseRecOn with
  | nil => exact ⟨nofun, .inl rfl⟩
  | append_singleton expires e ih =>
    obtain ⟨hle, hleast⟩ := ih
    simp only [cookieExpiresAfter, List.foldl_append, List.foldl_cons, List.foldl_nil]
      at hle hleast ⊢
    generalize List.foldl _ 0 expires = least at hle hleast ⊢
    simp only [List.mem_append, List.mem_singleton]
    split
    · rename_i h
      refine ⟨?_, .inr ⟨h.1, e, .inr rfl, rfl⟩⟩
      rintro d (hd | rfl) hpos
      · have := hle d hd hpos
        omega
      · exact ⟨hpos, le_rfl⟩
    · refine ⟨?_, hleast.imp_right fun ⟨hpos, d, hd, heq⟩ => ⟨hpos, d, .inl hd, heq⟩⟩
      rintro d (hd | rfl) hpos
      · exact hle d hd hpos
      · omega

/-- The dates that count -/
theorem cookieExpiresAfter_cases (hnow : 0 ≤ now) (res : Response) :
    cookieExpiresAfter now res.expires = 0 ∧ (∀ e, some e ∈ res.expires → e ≤ now + 3600) ∨
      ∃ e, some e ∈ res.expires ∧ now + 3600 < e ∧
        cookieExpiresAfter now res.expires = e - now - 3600 ∧
        ∀ d, some d ∈ res.expires → now + 3600 < d → e ≤ d := by
  obtain ⟨hle, hleast⟩ := cookieExpiresAfter_spec now res.expires
  have hdate : ∀ d, some d ∈ res.expires → now + 3600 < d →
      0 < cookieExpiresAfter now res.expires ∧
        cookieExpiresAfter now res.expires ≤ d - now - 3600 := fun d hd hlt =>
    hle (some d) hd (show 0 < d - now - 3600 by omega)
  rcases hleast with hzero | ⟨hpos, e, he, heq⟩
  · refine .inl ⟨hzero, fun e he => not_lt.mp fun hlt => ?_⟩
    have := hdate e he hlt
    omega
  · cases e with
    | none =>
      have hnone : expiresAfter now none = zeroTime - now - 3600 := rfl
      simp only [zeroTime] at hnone
      omega
    | some e =>
      have hsome : expiresAfter now (some e) = e - now - 3600 := rfl
      refine .inr ⟨e, he, by omega, heq, fun d hd hlt => ?_⟩
      have := hdate d hd hlt
      omega

/-- A call that does not set the key adds nothing to it. -/
theorem own_of_not_sets (h : ¬ x.2.Sets redis key)
    (hown : Call.own redis defaultExpiry key own x = some y) : own = some y := by
  unfold Call.own at hown
  cases hop : x.2.op redis with
  | none => simpa [hop] using hown
  | some op =>
    have hadded : op.added ≠ some key := fun h' => h ⟨op, hop, h'⟩
    simp only [hop] at hown
    cases op with
    | add k v | addWithDefaultExpires k v | addWithExpiresInSecs k v secs =>
      simpa only [Op.own, if_neg fun heq => hadded (congrArg some heq)] using hown
    | get k =>
      simp only [Op.own] at hown
      split at hown
      · exact (Option.filter_eq_some_iff.mp hown).1
      · exact hown
    | remove k =>
      simp only [Op.own] at hown
      split at hown
      · cases hown
      · exact hown
    | purge => cases hown
    | keys | len => exact hown

theorem foldl_own_of_not_sets {after : List (Int × Call Stored)}
    (h : ∀ x ∈ after, ¬ x.2.Sets redis key)
    (hown : after.foldl (Call.own redis defaultExpiry key) own = some y) : own = some y := by
  induction after generalizing own with
  | nil => exact hown
  | cons x after ih =>
    obtain ⟨hx, hafter⟩ := List.forall_mem_cons.mp h
    exact own_of_not_sets hx (ih hafter hown)

/-- What was set last is found until it expires. -/
theorem outcome_of_set {size : Nat} (hsize : 0 < size)
    (hlive : Cache.expired t (Cache.expiry now secs) = false) :
    outcome redis size defaultExpiry (calls ++ [(now, r.call md5 (.set (some s) secs))]) t "memory"
      r.domainId (r.cacheKey md5) = .got (.ok s) := by
  rw [outcome_of_memory rfl, slotsOf_concat]
  show Outcome.got (memoryReply _ ((((slotsOf redis size defaultExpiry calls).use size
    (entryKey r.domainId (r.cacheKey md5)) (some s, Cache.expiry now secs)).lookup _).filter _
      |>.map Prod.fst)) = _
  rw [Recency.lookup_use_self hsize, Option.filter_some, hlive]
  rfl

/-- The calls of a request that stores cookies -/
theorem calls_of_sent (hcache : r.cacheCookie = true) {cookie : String}
    (hsent : (httpRequest md5 redis m now r).2 = .sent (some cookie)) :
    r.url ≠ [] ∧ r.exportCookie ≠ "" ∧ ∃ res target, r.response = some res ∧
      (httpRequest md5 redis m now r).1 = [r.call md5 .get, r.call md5
        (.set (some ⟨cookie, some target⟩) (cookieExpiresAfter now res.expires))] := by
  have hsend : (r.send md5 now).2 = .sent (some cookie) →
      r.exportCookie ≠ "" ∧ ∃ res target, r.response = some res ∧ (r.send md5 now).1 = [r.call md5
        (.set (some ⟨cookie, some target⟩) (cookieExpiresAfter now res.expires))] := by
    unfold Request.send
    split
    · rename_i target res _ hres
      split
      · split
        · nofun
        · rename_i hname
          rintro ⟨⟩
          exact ⟨hname, res, target, hres, rfl⟩
      · nofun
    · nofun
  unfold httpRequest at hsent ⊢
  split at hsent
  · cases hsent
  rename_i hurl
  split at hsent
  · rename_i hask
    split at hsent
    · cases hsent
    · obtain ⟨hname, res, target, hres, hcalls⟩ := hsend hsent
      refine ⟨hurl, hname, res, target, hres, ?_⟩
      rw [if_neg hurl, if_pos hask]
      exact congrArg (r.call md5 .get :: ·) hcalls
  · rename_i hask
    exact absurd ⟨(hsend hsent).1, hcache⟩ hask

/-- Cookies that a request has stored are not served any more when one of them has expired, exactly
if for each that expires there is one which expires more than an hour from now, and less than an
hour after it. -/
theorem cookies_expire (md5 : Text.Bytes → String) (redis : Bool) (size : Nat) (hsize : 0 < size)
    (defaultExpiry : Int) (before : List (Int × Call Stored)) (now : Int) (hnow : 0 ≤ now)
    (r : Request) (hcache : r.cacheCookie = true) (res : Response) (hres : r.response = some res)
    (cookie : String)
    (hsent : (httpRequest md5 redis (execAll redis (newLru size defaultExpiry) before) now r).2 =
      .sent (some cookie)) :
    let calls := before ++
      (httpRequest md5 redis (execAll redis (newLru size defaultExpiry) before) now r).1.map
        (now, ·)
    (∀ after t q v, now ≤ t →
        (∀ x ∈ after, ¬ x.2.Sets redis (entryKey r.domainId (r.cacheKey md5))) →
        q.domainId = r.domainId → q.cacheKey md5 = r.cacheKey md5 →
        (httpRequest md5 redis (execAll redis (newLru size defaultExpiry) (calls ++ after)) t q).2 =
          .cached v →
        ∀ e, some e ∈ res.expires → t < e) ↔
      ∀ e, some e ∈ res.expires →
        ∃ d, some d ∈ res.expires ∧ now + 3600 < d ∧ d < e + 3600 := by
  intro calls
  obtain ⟨hurl, hname, res', target, hres', hcalls⟩ := calls_of_sent hcache hsent
  cases hres.symm.trans hres'
  let secs := cookieExpiresAfter now res.expires
  have hlast : calls = (before ++ [(now, r.call md5 .get)]) ++
      [(now, r.call md5 (.set (some ⟨cookie, some target⟩) secs))] := by
    rw [List.append_assoc]
    exact congrArg (before ++ List.map _ ·) hcalls
  have hexpiry : ∀ e, some e ∈ res.expires → now + 3600 < e → secs = e - now - 3600 →
      Cache.expiry now secs = e - 3600 := by
    intro e he hlt hsecs
    have hyear := res.dated e he
    rw [Cache.expiry, if_pos (by omega), Int.bmod_eq_of_le] <;> omega
  constructor
  · intro h e he
    have hserved : ∀ t, now ≤ t → Cache.expired t (Cache.expiry now secs) = false → t < e := by
      intro t ht hlive
      have hfound : outcome redis size defaultExpiry (calls ++ []) t "memory" r.domainId
          (r.cacheKey md5) = .got (.ok ⟨cookie, some target⟩) := by
        rw [List.append_nil, hlast]
        exact outcome_of_set hsize hlive
      exact h [] t r _ ht nofun rfl rfl
        (cached_iff.mpr ⟨hurl, ⟨hname, hcache⟩, _, hfound, rfl⟩) e he
    rcases cookieExpiresAfter_cases hnow res with ⟨hzero, -⟩ | ⟨d, hd, hlt, hsecs, -⟩
    · -- without a time the entry does not expire at all
      have hsecs : secs = 0 := hzero
      have hlater := hserved (max now e) (le_max_left ..) (by rw [hsecs]; rfl)
      omega
    · refine ⟨d, hd, hlt, ?_⟩
      have hend := hserved (d - 3600) (by omega) (by simp [hexpiry d hd hlt hsecs, Cache.expired])
      omega
  · intro h after t q v ht hafter hdomain hkey hv e he
    obtain ⟨-, -, s, hfound, -⟩ := cached_iff.mp hv
    obtain ⟨expireAt, hown, hlive⟩ := own_of_outcome hfound
    rw [hdomain, hkey, List.foldl_append] at hown
    have hset := foldl_own_of_not_sets hafter hown
    rw [hlast, List.foldl_append] at hset
    have hat : Cache.expiry now secs = expireAt := by
      have hop : (r.call md5 (.set (some ⟨cookie, some target⟩) secs)).op redis =
          some (.addWithExpiresInSecs (entryKey r.domainId (r.cacheKey md5)) _ secs) := rfl
      simp only [List.foldl_cons, List.foldl_nil, Call.own, hop, Op.own, if_true] at hset
      exact congrArg Prod.snd (Option.some.inj hset)
    obtain ⟨d, hd, hlt, hde⟩ := h e he
    rcases cookieExpiresAfter_cases hnow res with ⟨-, hnone⟩ | ⟨d', hd', hlt', hsecs, hleast⟩
    · have := hnone d hd
      omega
    · rw [← hat, hexpiry d' hd' hlt' hsecs] at hlive
      have hle := hleast d hd hlt
      simp only [Cache.expired, Bool.and_eq_false_iff, decide_eq_false_iff_not] at hlive
      omega

theorem cookies_expire_later :
    let r := pageOf "1" (cookieUntil 7200 (by decide))
    (httpRequest (fun _ => "k") false
        (execAll false (newLru 10 0)
          ((httpRequest (fun _ => "k") false (newLru 10 0) 0 r).1.map (0, ·)))
        3600 r).2 = .cached "&\x7ba=1\x7d" ∧ (3600 : Int) < 7200 := by
  intro r
  refine ⟨by decide +kernel, ?_⟩
  refine (cookies_expire (fun _ => "k") false 10 (by decide) 0 [] 0 le_rfl r rfl
    (cookieUntil 7200 (by decide)) rfl "a=1" (by decide +kernel)).mpr ?_ [] 3600 r
    "&\x7ba=1\x7d" (by decide) nofun rfl rfl (by decide +kernel) 7200 List.mem_cons_self
  intro e he
  cases List.mem_singleton.mp he
  exact ⟨7200, List.mem_cons_self, by decide, by decide⟩

/-- A cookie that expires within the hour is served for ever. -/
theorem cookies_expire_never :
    let r := pageOf "1" (cookieUntil 1800 (by decide))
    (httpRequest (fun _ => "k") false
        (execAll false (newLru 10 0)
          ((httpRequest (fun _ => "k") false (newLru 10 0) 0 r).1.map (0, ·)))
        1000000000 r).2 = .cached "&\x7ba=1\x7d" := by
  decide +kernel

end FlowManager.Cookies
