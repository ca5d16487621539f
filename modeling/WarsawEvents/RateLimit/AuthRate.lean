import Mathlib.Data.List.TakeWhile
import WarsawEvents.Foundations.PyText
import WarsawEvents.RateLimit.SearchQuota

/-! # The cap on auth attempts, and whose attempts they are

`check_auth_rate` counts attempts per client address and minute, `_client_ip` reads the address off the
`X-Forwarded-For` header, and the gateway (`deploy/local/nginx/nginx.conf`) appends the peer's address
to what the client sent there.

* `Bucket.hit`: the count that one attempt meets in its minute.
* `client_bucket_iff`: two requests of one peer share a key exactly when their clients name the same
  first hop; attempts that name one hop are capped together.
-/

namespace WarsawEvents.RateLimit
set_option autoImplicit false

open ExpiringCounter

/-! ## Attempts of one minute -/

abbrev minuteLength : ℤ := 60 * second

structure AuthKey where
  clientIp : String
  minute : ℤ
  deriving DecidableEq

/-- The minute that `strftime` puts into the key, as a number of minutes. -/
def Zone.minute (z : Zone) (now : ℤ) : ℤ := z.wall now / minuteLength

def authKey (z : Zone) (now : ℤ) (clientIp : String) : AuthKey := ⟨clientIp, z.minute now⟩

/-- `check_auth_rate`, with Redis answering. -/
def checkAuthRate (z : Zone) (limit : ℕ) (store : Store AuthKey) (now : ℤ) (clientIp : String) :
    Bool × Store AuthKey :=
  let key := authKey z now clientIp
  let (used, counted) := store.incr now key
  (used ≤ limit, if used = 1 then counted.expire now key minuteLength else counted)

/-- The attempts of one address in the minute that begins at an instant. -/
structure Bucket where
  clientIp : String
  minute : ℤ
  opens : ℤ

def Bucket.key (b : Bucket) : AuthKey := ⟨b.clientIp, b.minute⟩

def Bucket.Holds (z : Zone) (b : Bucket) (now : ℤ) : Prop :=
  z.minute now = b.minute ∧ b.opens ≤ now ∧ now < b.opens + minuteLength

instance (z : Zone) (b : Bucket) (now : ℤ) : Decidable (b.Holds z now) :=
  inferInstanceAs (Decidable (_ ∧ _))

/-- No counter of the bucket's key is left when the minute begins. -/
def Bucket.Unused (b : Bucket) (s : Store AuthKey) : Prop :=
  ∀ now, b.opens ≤ now → s.read now b.key = none

/-- `n` attempts of the bucket have been counted, and the counter lasts to the end of the minute. -/
def Bucket.Counts (b : Bucket) (s : Store AuthKey) : ℕ → Prop
  | 0 => b.Unused s
  | n + 1 => ∃ c, s b.key = some c ∧ c.used = n + 1 ∧
      ∀ now, now < b.opens + minuteLength → c.liveAt now = true

variable {z : Zone} {limit : ℕ} {b : Bucket} {s : Store AuthKey} {now : ℤ}

theorem Bucket.Counts.count_eq {n : ℕ} (h : b.Counts s n) (hnow : b.Holds z now) :
    s.count now b.key = n := by
  obtain ⟨_, hlow, hhigh⟩ := hnow
  cases n with
  | zero =>
    unfold Store.count
    rw [h now hlow]
    rfl
  | succ n =>
    obtain ⟨c, hc, hused, hlive⟩ := h
    rw [Store.count_of_live hc (hlive now hhigh), hused]

/-- An attempt of another key leaves the bucket alone. -/
theorem Bucket.Counts.other {n : ℕ} (h : b.Counts s n) {clientIp : String}
    (hkey : authKey z now clientIp ≠ b.key) :
    b.Counts (checkAuthRate z limit s now clientIp).2 n := by
  have hsame : (checkAuthRate z limit s now clientIp).2 b.key = s b.key := by
    unfold checkAuthRate
    simp only
    split
    · rw [Store.expire_other hkey.symm, Store.incr_other hkey.symm]
    · rw [Store.incr_other hkey.symm]
  cases n with
  | zero =>
    intro t ht
    unfold Store.read
    rw [hsame]
    exact h t ht
  | succ n =>
    unfold Bucket.Counts
    rw [hsame]
    exact h

variable (limit) in
/-- The attempt after `n` others is let through when the limit is not reached. -/
theorem Bucket.Counts.hit {n : ℕ} (h : b.Counts s n) (hnow : b.Holds z now) :
    (checkAuthRate z limit s now b.clientIp).1 = decide (n + 1 ≤ limit) ∧
      b.Counts (checkAuthRate z limit s now b.clientIp).2 (n + 1) := by
  have hcount := h.count_eq hnow
  obtain ⟨hminute, hlow, hhigh⟩ := hnow
  have hkey : authKey z now b.clientIp = b.key := by
    unfold authKey Bucket.key
    rw [hminute]
  have hused : (s.incr now b.key).1 = n + 1 := by
    simp only [Store.incr, hcount]
  unfold checkAuthRate
  rw [hkey]
  simp only [hused]
  refine ⟨trivial, ?_⟩
  cases n with
  | zero =>
    -- the first attempt: the counter is new and gets its minute
    have hnew : (s.incr now b.key).2 b.key = some ⟨1, none⟩ := by
      rw [Store.incr_self, hcount, h now hlow]
      rfl
    refine ⟨⟨1, some (now + minuteLength)⟩, ?_, rfl, ?_⟩
    · rw [if_pos rfl, Store.expire_self hnew]
      rfl
    · intro t ht
      simp only [Counter.liveAt, decide_eq_true_eq]
      omega
  | succ n =>
    obtain ⟨c, hc, _, hlive⟩ := h
    refine ⟨⟨n + 1 + 1, c.expiry⟩, ?_, rfl, hlive⟩
    rw [if_neg (by omega), Store.incr_self, hcount, Store.read_of_live hc (hlive now hhigh)]
    rfl

/-! ## The address of a request -/

/-- `xff.split(",")[0].strip()`. -/
def firstHop (xff : String) : String :=
  PyText.strip (String.ofList (xff.toList.takeWhile fun c => c ≠ ','))

/-- `_client_ip`, with the header's value, empty when there is none, and the socket peer's host. -/
def clientIp (xff : String) (host : Option String) : String :=
  if xff ≠ "" then firstHop xff else host.getD "unknown"

example : clientIp "203.0.113.5, 10.0.0.1" (some "10.0.0.9") = "203.0.113.5" := by decide

example : clientIp "" (some "198.51.100.2") = "198.51.100.2" := by decide

/-- `$proxy_add_x_forwarded_for`: the values the client sent, each with a comma after it, and the
address of the peer. -/
def proxyAddXForwardedFor (values : List String) (peer : String) : String :=
  values.foldr (fun v rest => v ++ (", " ++ rest)) peer

/-- The address of a socket peer as a text: no comma, no blank. -/
structure Peer where
  addr : String
  plain : addr.toList.all (fun c => c ≠ ',' && !PyText.isSpace c.toNat) = true
  nonempty : addr ≠ ""

/-- The client address that the application sees behind the gateway, whose own host is `gateway`. -/
def gatewayIp (peer : Peer) (gateway : Option String) (values : List String) : String :=
  clientIp (proxyAddXForwardedFor values peer.addr) gateway

/-- The hop a client names: what its first value has before the first comma. One that sends no value
is named by its address. -/
def claimedHop (peer : Peer) : List String → String
  | [] => peer.addr
  | v :: _ => firstHop v

theorem takeWhile_comma (l m : List Char) :
    (l ++ ',' :: m).takeWhile (fun c => c ≠ ',') = l.takeWhile fun c => c ≠ ',' := by
  induction l with
  | nil => simp
  | cons c l ih =>
    rw [List.cons_append, List.takeWhile_cons, List.takeWhile_cons, ih]

/-- What the gateway appends changes nothing before the first comma. -/
theorem firstHop_append (v rest : String) : firstHop (v ++ (", " ++ rest)) = firstHop v := by
  have hlist : (v ++ (", " ++ rest)).toList = v.toList ++ ',' :: (' ' :: rest.toList) := by
    rw [String.toList_append, String.toList_append]
    rfl
  unfold firstHop
  rw [hlist, takeWhile_comma]

theorem Peer.firstHop_addr (peer : Peer) : firstHop peer.addr = peer.addr := by
  have hplain : ∀ c ∈ peer.addr.toList, c ≠ ',' ∧ PyText.isSpace c.toNat = false := by
    intro c hc
    have hall := List.all_eq_true.mp peer.plain c hc
    simpa using hall
  have hwhole : peer.addr.toList.takeWhile (fun c => c ≠ ',') = peer.addr.toList := by
    rw [List.takeWhile_eq_self_iff]
    intro c hc
    simpa using (hplain c hc).1
  unfold firstHop
  rw [hwhole]
  unfold PyText.strip
  rw [String.toList_ofList, PyText.trimBy_eq_self fun c hc => (hplain c hc).2, String.ofList_toList]

/-- Behind the gateway a request counts for the hop that its client names. -/
theorem gatewayIp_eq (peer : Peer) (gateway : Option String) (values : List String) :
    gatewayIp peer gateway values = claimedHop peer values := by
  unfold gatewayIp clientIp
  cases values with
  | nil =>
    rw [proxyAddXForwardedFor, List.foldr_nil, if_pos peer.nonempty]
    exact peer.firstHop_addr
  | cons v values =>
    have hsome : proxyAddXForwardedFor (v :: values) peer.addr ≠ "" := by
      intro h
      have hlen := congrArg String.length h
      simp [proxyAddXForwardedFor] at hlen
    rw [if_pos hsome, proxyAddXForwardedFor, List.foldr_cons, firstHop_append]
    rfl

/-! ## The attempts of one peer -/

/-- An auth attempt that reaches the gateway: its instant and the `X-Forwarded-For` values sent. -/
structure Attempt where
  now : ℤ
  values : List String
  deriving DecidableEq

/-- What `check_auth_rate` answers to the attempts of one peer, one after the other. -/
def answers (z : Zone) (limit : ℕ) (peer : Peer) (gateway : Option String) :
    Store AuthKey → List Attempt → List Bool
  | _, [] => []
  | s, a :: rest =>
    let checked := checkAuthRate z limit s a.now (gatewayIp peer gateway a.values)
    checked.1 :: answers z limit peer gateway checked.2 rest

theorem answers_of_one_hop (limit : ℕ) {peer : Peer} (gateway : Option String) {n : ℕ}
    (hs : b.Counts s n) {attempts : List Attempt} (hnow : ∀ a ∈ attempts, b.Holds z a.now)
    (hhop : ∀ a ∈ attempts, claimedHop peer a.values = b.clientIp) :
    (answers z limit peer gateway s attempts).countP (fun ok => ok) + min n limit ≤ limit := by
  induction attempts generalizing s n with
  | nil =>
    rw [answers, List.countP_nil]
    omega
  | cons a rest ih =>
    rw [List.forall_mem_cons] at hnow hhop
    have haddr : gatewayIp peer gateway a.values = b.clientIp := by
      rw [gatewayIp_eq, hhop.1]
    obtain ⟨hok, hcounts⟩ := hs.hit limit hnow.1
    have hrest := ih hcounts hnow.2 hhop.2
    rw [answers, List.countP_cons]
    simp only [haddr, hok]
    by_cases hle : n + 1 ≤ limit
    · simp only [hle, decide_true, if_true]
      omega
    · simp only [hle, decide_false, Bool.false_eq_true, if_false]
      omega

/-- Two requests of one peer in one minute share their key exactly when their clients name the same first
hop; and of the attempts of one minute that name one hop at most `limit` get through. -/
theorem client_bucket_iff (z : Zone) (limit : ℕ) (peer : Peer) (gateway : Option String) :
    (∀ now now' values values', z.minute now = z.minute now' →
      (authKey z now (gatewayIp peer gateway values)
          = authKey z now' (gatewayIp peer gateway values') ↔
        claimedHop peer values = claimedHop peer values')) ∧
    ∀ (b : Bucket) (s : Store AuthKey) (attempts : List Attempt), b.Unused s →
      (∀ a ∈ attempts, b.Holds z a.now ∧ claimedHop peer a.values = b.clientIp) →
      (answers z limit peer gateway s attempts).countP (fun ok => ok) ≤ limit := by
  constructor
  · intro now now' values values' hminute
    rw [gatewayIp_eq, gatewayIp_eq]
    simp only [authKey, AuthKey.mk.injEq, hminute, and_true]
  · intro b s attempts hunused hattempts
    have hcounts : b.Counts s 0 := hunused
    have hcapped := answers_of_one_hop limit gateway hcounts
      (fun a ha => (hattempts a ha).1) fun a ha => (hattempts a ha).2
    omega

def utc : Zone := ⟨fun _ => 0⟩

def onePeer : Peer := ⟨"198.51.100.7", by decide, by decide⟩

def firstMinute : Bucket := ⟨"198.51.100.7", 0, 0⟩

/-- A client that sends no header: its own address is the key, and the cap holds. -/
theorem client_bucket_iff_honest :
    authKey utc 0 (gatewayIp onePeer none []) = authKey utc second (gatewayIp onePeer none []) ∧
      (answers utc 10 onePeer none (fun _ => none) [⟨0, []⟩, ⟨second, []⟩]).countP (fun ok => ok)
        ≤ 10 := by
  refine ⟨((client_bucket_iff utc 10 onePeer none).1 0 second [] [] (by decide)).mpr rfl, ?_⟩
  apply (client_bucket_iff utc 10 onePeer none).2 firstMinute
  · intro now _
    rfl
  · decide

/-- Two headers, two keys; with a header of its own for each, eleven attempts of one peer in one minute
all get through. -/
theorem client_chooses_bucket :
    authKey utc 0 (gatewayIp onePeer none ["10.0.0.1"])
        ≠ authKey utc 0 (gatewayIp onePeer none ["10.0.0.2"]) ∧
      (answers utc 10 onePeer none (fun _ => none)
        (["a", "b", "c", "d", "e", "f", "g", "h", "i", "j", "k"].map fun v => ⟨0, [v]⟩)).countP
          (fun ok => ok) = 11 := by
  decide

end WarsawEvents.RateLimit
