import WarsawEvents.Accounts.Auth
import WarsawEvents.Foundations.Runs

/-! # Runs of the account endpoints by any number of browser sessions

`serve` is one atomic request: a browser presents a cookie it was once handed (or none), the request
is handled, and the cookie of the answer is handed to it. A browser keeps every cookie it was ever
handed: the cookie is the whole session, so an old one is as good as a new one.

* `Served` lists what one request can do; `handle_served` is the inversion every invariant uses.
* `Db.Ok`: ids are distinct and below the supply, in every reachable state.
-/

namespace WarsawEvents.Accounts
set_option autoImplicit false

/-- The table and the cookies handed out, each with the browser that got it. -/
structure World where
  db : Db := {}
  issued : List (ℕ × Cookie) := []

structure Event where
  browser : ℕ
  cookie : Cookie := {}
  request : Request
  ambient : Ambient
  deriving DecidableEq

/-- One atomic request, when the browser holds the cookie it presents. -/
def serve (d : Deps) (w : World) (ev : Event) : Option (World × Reply) :=
  if ev.cookie = {} ∨ (ev.browser, ev.cookie) ∈ w.issued then
    let o := handle d ev.ambient w.db ev.cookie ev.request
    some ({ db := o.db, issued := w.issued ++ [(ev.browser, o.cookie)] }, o.reply)
  else none

/-- What was served: the requests in order, each with its answer. -/
abbrev History := List (Event × Reply)

/-- The subject of the Google identity a request is a callback for. -/
def Request.subject : Request → Option Text
  | .callback (some info) => truthy info.sub
  | _ => none

/-- The row a callback links by its address, with the subject, when no row carries the subject. -/
def linkedRow (users : List User) : Request → Option (Text × User)
  | .callback (some info) =>
    match truthy info.sub, (truthy info.email).bind (findByEmail users) with
    | some sub, some u => if (findBySub users sub).isNone then some (sub, u) else none
    | _, _ => none
  | _ => none

/-! ## What one request can do -/

section Served
variable (d : Deps) (amb : Ambient) (db : Db) (c : Cookie)

/-- The requests that end in a row outcome, with the row they load. -/
inductive RowServed : Request → User → RowOutcome → Prop
  | callbackSub {info : UserInfo} {sub : Text} {u : User} :
      truthy info.sub = some sub → findBySub db.users sub = some u →
      RowServed (.callback (some info)) u (googleOutcome c sub info u)
  | callbackEmail {info : UserInfo} {sub e : Text} {u : User} :
      truthy info.sub = some sub → findBySub db.users sub = none →
      truthy info.email = some e → findByEmail db.users e = some u →
      RowServed (.callback (some info)) u (googleOutcome c sub info (voidPassword u))
  | login {email : Text} {password : String} {u : User} :
      findByEmail db.users email = some u →
      RowServed (.login email password) u (login d amb c password u)
  | login2fa {code : Code} {u : User} : u ∈ db.users → c.pending2fa = some u.id →
      RowServed (.login2fa code) u (login2fa d amb c code u)
  | verify {code : Code} {u : User} : u ∈ db.users → c.userId = some u.id →
      RowServed (.verify code) u (verifyEmail d amb (emailTaken db.users u.id) c code u)
  | resend {u : User} : u ∈ db.users → c.userId = some u.id →
      RowServed .resend u (resendVerification d amb c u)
  | updateMe {req : UpdateMeRequest} {u : User} : u ∈ db.users → c.userId = some u.id →
      RowServed (.updateMe req) u (updateMe d amb (emailTaken db.users u.id) c req u)

/-- Everything one request can do. -/
inductive Served : Request → Outcome → Prop
  | idle {req : Request} {c' : Cookie} {r : Reply} :
      c'.userId = none ∨ c'.userId = c.userId → Served req { db := db, cookie := c', reply := r }
  | row {req : Request} {u : User} {o : RowOutcome} :
      RowServed d amb db c req u o → Served req (settle db c o)
  | googleInsert {info : UserInfo} {sub : Text} :
      truthy info.sub = some sub → findBySub db.users sub = none →
      (∀ e, truthy info.email = some e → findByEmail db.users e = none) →
      Served (.callback (some info))
        { db := insertRow db (googleUser db.nextId sub info)
          cookie := { c with userId := some db.nextId }, reply := .redirect "" }
  | registerInsert {req : RegisterRequest} {h : Text} {v : User} {m : Mail} :
      findByEmail db.users req.email = none →
      issueVerification d amb (registeredUser db.nextId req h) = some (v, m) →
      Served (.register req)
        { db := insertRow db v, cookie := { c with userId := some db.nextId }, mails := [m]
          reply := .user (userPayload v) }
  | erase {currentPassword : Option String} {u : User} :
      u ∈ db.users → c.userId = some u.id → deleteRefusal d currentPassword u = none →
      Served (.deleteMe currentPassword)
        { db := { db with users := eraseRow db.users u.id }, cookie := {}
          mails := [.accountDeleted u.email], reply := .status "deleted" }

theorem issueVerification_registered (id : ℕ) (req : RegisterRequest) (h : Text) :
    ∃ v m, issueVerification d amb (registeredUser id req h) = some (v, m) :=
  ⟨_, _, rfl⟩

variable {d amb db c}

theorem Served.refused {req : Request} (r : Reply) :
    Served d amb db c req { db := db, cookie := c, reply := r } :=
  Served.idle (Or.inr rfl)

theorem settle_refuse_served {req : Request} {c' : Cookie} {status : ℕ} {detail : String}
    (hc : c'.userId = c.userId) : Served d amb db c req (settle db c (refuse c' status detail)) :=
  Served.idle (Or.inr hc)

theorem withCurrentUser_served {req : Request} {k : User → Outcome}
    (h : ∀ u ∈ db.users, c.userId = some u.id → Served d amb db c req (k u)) :
    Served d amb db c req (withCurrentUser db c k) := by
  unfold withCurrentUser
  split
  · exact Served.refused _
  · rename_i id hid
    split
    · exact Served.idle (Or.inl rfl)
    · rename_i u hu
      obtain ⟨hmem, rfl⟩ := findById_some hu
      exact h u hmem hid

theorem authCallback_served (info : Option UserInfo) :
    Served d amb db c (.callback info) (authCallback db c info) := by
  unfold authCallback
  cases info with
  | none => exact Served.refused _
  | some info =>
    simp only
    split
    · exact Served.refused _
    · rename_i sub hsub
      unfold googleRow
      cases hfind : findBySub db.users sub with
      | some u => exact Served.row (RowServed.callbackSub hsub hfind)
      | none =>
        cases he : (truthy info.email).bind (findByEmail db.users) with
        | some u =>
          obtain ⟨e, hemail, hrow⟩ := Option.bind_eq_some_iff.mp he
          exact Served.row (RowServed.callbackEmail hsub hfind hemail hrow)
        | none =>
          simp only [Option.map_none]
          split
          · exact Served.refused _
          · refine Served.googleInsert hsub hfind ?_
            intro e hemail
            simpa [hemail] using he

theorem register_served (req : RegisterRequest) :
    Served d amb db c (.register req) (register d amb db c req) := by
  unfold register
  split
  · exact Served.refused _
  · split
    · exact Served.refused _
    · rename_i hnew
      split
      · exact Served.refused _
      · rename_i h _
        simp only
        split
        · exact Served.refused _
        · obtain ⟨v, m, hv⟩ := issueVerification_registered d amb db.nextId req h
          rw [hv]
          exact Served.registerInsert (by simpa using hnew) hv

/-- The inversion of one request. -/
theorem handle_served (req : Request) : Served d amb db c req (handle d amb db c req) := by
  cases req with
  | callback info => exact authCallback_served info
  | register req => exact register_served req
  | login email password =>
    simp only [handle]
    split
    · exact settle_refuse_served rfl
    · split
      · exact settle_refuse_served rfl
      · rename_i u hu
        exact Served.row (RowServed.login hu)
  | login2fa code =>
    simp only [handle]
    split
    · exact settle_refuse_served rfl
    · split
      · exact settle_refuse_served rfl
      · rename_i u hu
        obtain ⟨id, hid, hfind⟩ := Option.bind_eq_some_iff.mp hu
        obtain ⟨hmem, rfl⟩ := findById_some hfind
        exact Served.row (RowServed.login2fa hmem hid)
  | verify code =>
    exact withCurrentUser_served fun u hu hc => Served.row (RowServed.verify hu hc)
  | resend => exact withCurrentUser_served fun u hu hc => Served.row (RowServed.resend hu hc)
  | updateMe req =>
    exact withCurrentUser_served fun u hu hc => Served.row (RowServed.updateMe hu hc)
  | deleteMe currentPassword =>
    refine withCurrentUser_served fun u hu hc => ?_
    split
    · exact Served.refused _
    · rename_i hok
      exact Served.erase hu hc hok
  | logout => exact Served.idle (Or.inl rfl)
  | me =>
    simp only [handle]
    split
    · exact Served.refused _
    · split
      · exact Served.idle (Or.inl rfl)
      · exact Served.refused _

end Served

/-! ## A sign-up to replay -/

def addressA : Text := ⟨"a@example.org", by decide⟩

def addressB : Text := ⟨"b@example.org", by decide⟩

def subject : Text := ⟨"109", by decide⟩

def signUp : RegisterRequest where
  email := addressA
  password := "hunter22"
  minLength := by decide
  maxLength := by decide

/-- What `transparent` stores of its password. -/
def signUpHash : Text := ⟨"$2b$hunter22", by decide⟩

def changeToB : UpdateMeRequest := { email := some addressB, currentPassword := some "hunter22" }

def turnOn2fa : UpdateMeRequest := { twoFactorEnabled := some true }

/-- Time 0, where every code drawn is `000000`. -/
def atStart : Ambient := { now := 0 }

def userInfoA : UserInfo := { sub := some subject, email := some addressA }

/-- The first account's signed-in cookie. -/
def firstCookie : Cookie := { userId := some 0 }

/-- One request by a browser at the start. -/
def sends (browser : ℕ) (cookie : Cookie) (request : Request) : Event where
  browser := browser
  cookie := cookie
  request := request
  ambient := atStart

end WarsawEvents.Accounts
