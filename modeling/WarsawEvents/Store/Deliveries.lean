import WarsawEvents.Foundations.OrderBy
import WarsawEvents.Store.History

/-! # Shares and attachments over a run

A share that was acknowledged is on the recipient's page until the recipient dismisses it or one of the
two accounts is deleted, and the page holds nothing that was not shared. An attachment is given back
to its owner as it was uploaded until the owner deletes it or the account, and to nobody else.
-/

namespace WarsawEvents.Store
set_option autoImplicit false

open RowSecurity
open Coupling Runs
open Accounts (Cookie)

variable {env : Env} {db db' : Db} {me id : ℕ} {role : Role} {call : Call} {r : Response}
  {s s' : Site} {move : Move} {answer : Answer} {G : Guard} {past : History}

/-! ## Acknowledged requests -/

/-- The request of `me` for `call`, with its answer. -/
def Asked (me : ℕ) (call : Call) (r : Response) (now : ℕ) (e : Move × Answer) : Prop :=
  ∃ env role browser cookie, e = (.social env role browser cookie call, .social r) ∧
    cookie.userId = some me ∧ env.now = now

/-- Who asked, and what the request did. -/
theorem Site.step_cases (h : Intact s.db) (hstep : s.step move = some (s', answer)) :
    (∃ d im ev, move = .profile d im ev) ∨
    (∃ log, s'.db = { s.db with intentLogs := s.db.intentLogs ++ [log] }) ∨
    (∃ cards, s'.db = { s.db with items := cards }) ∨
    s'.db = s.db ∨
    ∃ env role browser cookie me call, move = .social env role browser cookie call ∧
      answer = .social (serve env role s.db me call).1 ∧ cookie.userId = some me ∧
      Effect env s.db me call (serve env role s.db me call).1 s'.db := by
  cases move with
  | profile d im ev => exact .inl ⟨d, im, ev, rfl⟩
  | social env role browser cookie call =>
    right
    right
    right
    obtain ⟨_, rfl, rfl⟩ := Site.step_social hstep
    cases hc : cookie.userId with
    | none => exact .inl (by simp only [authorized, hc])
    | some me =>
      right
      refine ⟨env, role, browser, cookie, me, call, rfl, ?_, hc, ?_⟩
      · simp only [authorized, hc]
      · simp only [authorized, hc]
        exact serve_effect env role h.keyed me call
  | search log =>
    obtain ⟨_, _, rfl⟩ := Site.step_search hstep
    exact .inr (.inl ⟨log, rfl⟩)
  | ingest cards =>
    obtain ⟨_, _, rfl⟩ := Site.step_ingest hstep
    exact .inr (.inr (.inl ⟨cards, rfl⟩))

theorem asked_of_cookie {browser : ℕ} {cookie : Cookie} (hc : cookie.userId = some me) :
    Asked me call r env.now (.social env role browser cookie call, .social r) :=
  ⟨env, role, browser, cookie, rfl, hc, rfl⟩

theorem Asked.erases {currentPassword : Option String} {now : ℕ} {e : Move × Answer}
    (h : Asked me (.deleteMe currentPassword) (.status "deleted") now e) : Erases me e := by
  obtain ⟨env, role, browser, cookie, rfl, hc, _⟩ := h
  exact Erases.social hc

/-! ## Shares -/

theorem Effect.shares_origin (h : Effect env db me call r db') {row : SharedEvent}
    (hrow : row ∈ db'.sharedEvents) : row ∈ db.sharedEvents ∨
      ∃ req, call = .shareEvent req ∧ r = .status "shared" ∧ row = shareRow env me req := by
  cases h with
  | shared _ _ _ =>
    obtain hold | hnew := List.mem_append.mp hrow
    · exact .inl hold
    · exact .inr ⟨_, rfl, rfl, List.mem_singleton.mp hnew⟩
  | dismissed => exact .inl (List.mem_filter.mp hrow).1
  | accountDeleted => exact .inl (List.mem_filter.mp hrow).1
  | _ => exact .inl hrow

/-- A row whose users stay is not lost to an account endpoint. -/
theorem profile_keeps {d : Accounts.Deps} {im : Accounts.Imaging} {ev : Accounts.ProfileEvent}
    (hstep : s.step (.profile d im ev) = some (s', answer)) (hid : s.db.hasUser id = true) :
    s'.db.hasUser id = true ∨ Erases id (.profile d im ev, answer) := by
  obtain ⟨p, r, hserve, rfl, rfl⟩ := Site.step_profile hstep
  rw [hasUser_withProfiles, knows_iff]
  exact serveProfile_keeps hserve ((hasUser_iff_profiles s id).mp hid)

/-- The entry of a row, when its item and its sender are there. -/
def entryOf (env : Env) (db : Db) (s : SharedEvent) : Option SharedEventOut :=
  match db.items.find? fun i => i.id = s.itemId, db.users.find? fun u => u.id = s.fromUserId with
  | some item, some sender =>
    some { id := s.id, item := itemOut item, fromUser := publicUser env sender .friends
           message := s.message, createdAt := s.createdAt }
  | _, _ => none

theorem serve_listSharedWithMe (env : Env) (role : Role) (hkeys : db.Keyed) (hme : db.hasUser me = true)
    (limit : ℕ) : (serve env role db me (.listSharedWithMe limit)).1 =
      .shares (((Friends.received db me).filterMap (entryOf env db)).take limit) := by
  rw [Friends.serve_either env me (.listSharedWithMe limit) hkeys role rfl]
  obtain ⟨u, rfl, hanswer, _⟩ := serve_ends env .owner (.listSharedWithMe limit) hme
  rw [hanswer]
  simp only [Call.handler, listSharedWithMe]
  rw [exec_bind_ok (exec_select_owner rfl), exec_bind_ok (exec_select_owner rfl),
    exec_bind_ok (exec_select_owner rfl)]
  simp only [items, users, List.filter_true]
  rfl

/-- An entry says what its row says. -/
structure Entry (row : SharedEvent) (out : SharedEventOut) : Prop where
  id : out.id = row.id
  item : out.item.item.id = row.itemId
  sender : out.fromUser.id = row.fromUserId
  message : out.message = row.message
  createdAt : out.createdAt = row.createdAt

theorem entryOf_some {row : SharedEvent} {out : SharedEventOut} (h : entryOf env db row = some out) :
    Entry row out := by
  unfold entryOf at h
  split at h
  · next item sender hitem hsender =>
    cases h
    have hitemId : item.id = row.itemId := by simpa using List.find?_some hitem
    have hsenderId : sender.id = row.fromUserId := by simpa using List.find?_some hsender
    exact ⟨rfl, hitemId, hsenderId, rfl, rfl⟩
  · cases h

def sharesIn : Response → List SharedEventOut
  | .shares outs => outs
  | _ => []

theorem mem_received {row : SharedEvent} :
    row ∈ Friends.received db me ↔ row ∈ db.sharedEvents ∧ row.toUserId = me := by
  unfold Friends.received
  rw [List.mem_insertionSort, List.mem_filter, decide_eq_true_eq]

/-- The share that a row was stored for. -/
def SharedBy (past : History) (row : SharedEvent) : Prop :=
  ∃ e ∈ past, ∃ req : ShareRequest, Asked row.fromUserId (.shareEvent req) (.status "shared") row.createdAt e ∧
    req.toUserId = row.toUserId ∧ req.itemId = row.itemId ∧ req.message = row.message

theorem SharedBy.later {row : SharedEvent} (h : SharedBy past row) (e : Move × Answer) :
    SharedBy (past ++ [e]) row := by
  obtain ⟨e', he', hreq⟩ := h
  exact ⟨e', List.mem_append_left _ he', hreq⟩

theorem share_origin (h : Reached G past s) : ∀ row ∈ s.db.sharedEvents, SharedBy past row := by
  have hall : s.Sound ∧ ∀ row ∈ s.db.sharedEvents, SharedBy past row := by
    refine h.invariant_of_init (fun past s => s.Sound ∧ ∀ row ∈ s.db.sharedEvents, SharedBy past row)
      ?_ ⟨sound_empty, fun _ hrow => absurd hrow List.not_mem_nil⟩
    rintro past t ⟨move, answer⟩ t' ⟨hsound, hpast⟩ ⟨_, hstep⟩
    refine ⟨hsound.step hstep, fun row hrow => ?_⟩
    obtain ⟨d, im, ev, rfl⟩ | ⟨log, hdb⟩ | ⟨cards, hdb⟩ | hsame |
        ⟨env, role, browser, cookie, me, call, rfl, rfl, hc, heffect⟩ := Site.step_cases hsound.intact hstep
    · obtain ⟨p, r, _, _, rfl⟩ := Site.step_profile hstep
      exact (hpast row (List.mem_filter.mp hrow).1).later _
    · rw [hdb] at hrow
      exact (hpast row hrow).later _
    · rw [hdb] at hrow
      exact (hpast row hrow).later _
    · rw [hsame] at hrow
      exact (hpast row hrow).later _
    · obtain hold | ⟨req, rfl, hr, rfl⟩ := heffect.shares_origin hrow
      · exact (hpast row hold).later _
      · refine ⟨_, List.mem_append_right _ (List.mem_singleton.mpr rfl), req, ?_, rfl, rfl, rfl⟩
        rw [hr]
        exact asked_of_cookie hc
  exact hall.2

/-- Every entry of the page was shared with the caller by the user it names, with that message at that
time; a card is on the page at most once for each sender. -/
theorem inbox_shows_shares (h : Reached G past s) (hme : s.db.hasUser me = true) (env : Env) (role : Role)
    (limit : ℕ) :
    (∀ out ∈ sharesIn (serve env role s.db me (.listSharedWithMe limit)).1,
      ∃ e ∈ past, ∃ req : ShareRequest,
        Asked out.fromUser.id (.shareEvent req) (.status "shared") out.createdAt e ∧
        req.toUserId = me ∧ req.itemId = out.item.item.id ∧ req.message = out.message) ∧
      (sharesIn (serve env role s.db me (.listSharedWithMe limit)).1).Pairwise fun out out' =>
        ¬(out.fromUser.id = out'.fromUser.id ∧ out.item.item.id = out'.item.item.id) := by
  have hintact := (reached_sound h).intact
  rw [serve_listSharedWithMe env role hintact.keyed hme]
  unfold sharesIn
  constructor
  · intro out hout
    obtain ⟨row, hrow, hentry⟩ := List.mem_filterMap.mp (List.mem_of_mem_take hout)
    obtain ⟨hstored, rfl⟩ := mem_received.mp hrow
    obtain ⟨e, he, req, hasked, hto, hitem, hmessage⟩ := share_origin h row hstored
    have hout' := entryOf_some hentry
    refine ⟨e, he, req, ?_, hto, ?_, ?_⟩
    · rw [hout'.sender, hout'.createdAt]
      exact hasked
    · rw [hitem, hout'.item]
    · rw [hmessage, hout'.message]
  · have hunique : (Friends.received s.db me).Pairwise fun row row' =>
        ¬(row.fromUserId = row'.fromUserId ∧ row.itemId = row'.itemId) := by
      unfold Friends.received
      refine (List.Perm.pairwise_iff ?_ (List.perm_insertionSort _ _)).mpr ?_
      · rintro row row' hne ⟨hfrom, hitem⟩
        exact hne ⟨hfrom.symm, hitem.symm⟩
      · have hrows : (s.db.sharedEvents.filter fun row => row.toUserId = me).Pairwise
            fun row row' => sharedEvents.clashes row row' = false :=
          hintact.shareRows.unique.sublist List.filter_sublist
        refine List.Pairwise.imp_of_mem ?_ hrows
        rintro row row' hrow hrow' hclash ⟨hfrom, hitem⟩
        have hto := of_decide_eq_true (List.mem_filter.mp hrow).2
        have hto' := of_decide_eq_true (List.mem_filter.mp hrow').2
        rw [← Bool.not_eq_true] at hclash
        apply hclash
        simp [sharedEvents, hfrom, hitem, hto, hto']
    refine List.Pairwise.sublist (List.take_sublist _ _) (List.pairwise_filterMap.mpr ?_)
    refine hunique.imp ?_
    intro row row' hne out hout out' hout'
    rw [(entryOf_some hout).sender, (entryOf_some hout').sender, (entryOf_some hout).item,
      (entryOf_some hout').item]
    exact hne

theorem inbox_shows_shares_meeting :
    (sharesIn (serve plainEnv .runtime (played meeting).2.db 1 (.listSharedWithMe 50)).1).Pairwise
      fun out out' => ¬(out.fromUser.id = out'.fromUser.id ∧ out.item.item.id = out'.item.item.id) :=
  (inbox_shows_shares meeting_reached (by decide) plainEnv .runtime 50).2

/-! ## Attachments -/

theorem Effect.files_origin (h : Effect env db me call r db') {row : UserFile}
    (hrow : row ∈ db'.userFiles) : row ∈ db.userFiles ∨
      ∃ up contentType, call = .uploadFile up ∧ checkUpload env up = .ok contentType ∧
        acceptsUpload env db me up = true ∧ row = uploadedFile env me up contentType ∧
        ((∃ f, r = .created f ∧ f.id = env.newId) ∨ r = .serverError) := by
  cases h with
  | @uploaded up contentType _ hcheck hroom haccepts hanswer =>
    obtain hold | hnew := List.mem_append.mp hrow
    · exact .inl hold
    · have hitem : db.hasItem up.itemId = true := by
        have hfits := haccepts
        simp only [RowSecurity.Table.accepts, userFiles, uploadedFile, Bool.and_eq_true] at hfits
        exact hfits.1.1.1.2
      have haccepted : acceptsUpload env db me up = true := by
        simp only [acceptsUpload, hcheck, hitem, hroom, haccepts, decide_true, Bool.and_self]
      exact .inr ⟨_, _, rfl, hcheck, haccepted, List.mem_singleton.mp hnew, hanswer⟩
  | fileDeleted _ _ => exact .inl (List.mem_filter.mp hrow).1
  | accountDeleted => exact .inl (List.mem_filter.mp hrow).1
  | _ => exact .inl hrow

/-- How an upload that is stored is answered: the table owner with the new row's id, the runtime role with
an error, since the policies hide the row from the endpoint once its transaction is over. -/
def ConfirmedAs (role : Role) (fileId : ℕ) (r : Response) : Prop :=
  (role = .owner ∧ ∃ f, r = .created f ∧ f.id = fileId) ∨ (role = .runtime ∧ r = .serverError)

theorem confirmedAs_of_accepted {up : Upload} (hacc : acceptsUpload env db me up = true)
    (hr : r = (serve env role db me (.uploadFile up)).1)
    (hanswer : (∃ f, r = .created f ∧ f.id = env.newId) ∨ r = .serverError) :
    ConfirmedAs role env.newId r := by
  have hcall : (Call.uploadFile up).acceptedUpload env db me = true := hacc
  obtain ⟨⟨f, howner⟩, hruntime⟩ := serve_acceptedUpload hcall
  cases role with
  | owner =>
    rw [howner] at hr
    obtain hcreated | hcrash := hanswer
    · exact .inl ⟨rfl, hcreated⟩
    · rw [hr] at hcrash
      cases hcrash
  | runtime => exact .inr ⟨rfl, hr.trans hruntime⟩

theorem Effect.files_kept (hkeys : db.Keyed) (h : Effect env db me call r db') {row : UserFile}
    (hrow : row ∈ db.userFiles) : row ∈ db'.userFiles ∨ row.userId = me ∧
      (call = .deleteFile row.id ∧ r = .status "removed" ∨
        ∃ currentPassword, call = .deleteMe currentPassword ∧ r = .status "deleted") := by
  cases h with
  | uploaded _ _ _ _ => exact .inl (List.mem_append_left _ hrow)
  | @fileDeleted f hf hown =>
    by_cases hthis : row.id = f.id
    · obtain rfl : row = f := List.inj_on_of_nodup_map hkeys.userFiles hrow hf hthis
      exact .inr ⟨hown, .inl ⟨rfl, rfl⟩⟩
    · exact .inl (List.mem_filter.mpr ⟨hrow, by simpa using hthis⟩)
  | accountDeleted =>
    by_cases hthis : row.userId = me
    · exact .inr ⟨hthis, .inr ⟨_, rfl, rfl⟩⟩
    · exact .inl (List.mem_filter.mpr ⟨hrow, by simpa using hthis⟩)
  | _ => exact .inl hrow

/-- A confirmed upload is stored under the id it is confirmed with. -/
theorem Effect.created_stored {up : Upload} {f : FileOut}
    (h : Effect env db me (.uploadFile up) (.created f) db') :
    f.id = env.newId ∧ ∃ contentType, checkUpload env up = .ok contentType ∧
      uploadedFile env me up contentType ∈ db'.userFiles := by
  cases h with
  | kept hkept => simp [writes, acknowledged] at hkept
  | uploaded hcheck _ _ hanswer =>
    obtain ⟨out, hout, hid⟩ | hcrash := hanswer
    · cases hout
      exact ⟨hid, _, hcheck, List.mem_append_right _ (List.mem_singleton.mpr rfl)⟩
    · cases hcrash

/-- What ends an attachment: its owner deletes it, or the account. -/
def EndsFile (owner fileId : ℕ) (e : Move × Answer) : Prop :=
  Erases owner e ∨ ∃ now, Asked owner (.deleteFile fileId) (.status "removed") now e

theorem file_step (h : Intact s.db) (hstep : s.step move = some (s', answer)) {row : UserFile}
    (hrow : row ∈ s.db.userFiles) :
    row ∈ s'.db.userFiles ∨ EndsFile row.userId row.id (move, answer) := by
  obtain ⟨d, im, ev, rfl⟩ | ⟨log, hdb⟩ | ⟨cards, hdb⟩ | hsame |
      ⟨env, role, browser, cookie, me, call, rfl, rfl, hc, heffect⟩ := Site.step_cases h hstep
  · have hfits := h.fileRows.fits row hrow
    simp only [userFiles, Bool.and_eq_true] at hfits
    obtain howner | howner := profile_keeps hstep hfits.1.1.1
    · left
      obtain ⟨p, r, _, _, rfl⟩ := Site.step_profile hstep
      rw [hasUser_withProfiles] at howner
      exact List.mem_filter.mpr ⟨hrow, howner⟩
    · exact .inr (.inl howner)
  · rw [hdb]
    exact .inl hrow
  · rw [hdb]
    exact .inl hrow
  · rw [hsame]
    exact .inl hrow
  · have hasked : Asked me call (serve env role s.db me call).1 env.now
        (.social env role browser cookie call, .social (serve env role s.db me call).1) := asked_of_cookie hc
    obtain hkept | ⟨rfl, ⟨rfl, hr⟩ | ⟨pw, rfl, hr⟩⟩ := heffect.files_kept h.keyed hrow
    · exact .inl hkept
    · rw [hr] at hasked ⊢
      exact .inr (.inr ⟨_, hasked⟩)
    · rw [hr] at hasked ⊢
      exact .inr (.inl hasked.erases)

/-- `GET /me/files/{id}`: the caller's own row, read again by its key. -/
theorem serve_getFile (h : Intact db) (env : Env) (role : Role) (hme : db.hasUser me = true)
    (fileId : ℕ) (download : Bool) : (serve env role db me (.getFile fileId download)).1 =
      match db.userFiles.find? fun f => f.id = fileId && f.userId = me with
      | some f => .content f.data f.contentType (if download then "attachment" else "inline") f.filename
      | none => .http 404 "File not found" := by
  rw [Friends.serve_either env me (.getFile fileId download) h.keyed role rfl]
  obtain ⟨u, rfl, hanswer, _⟩ := serve_ends env .owner (.getFile fileId download) hme
  rw [hanswer]
  simp only [Call.handler, getFile]
  have hown := exec_ownFile (s := pinnedSess .owner db u.id) rfl u.id fileId
  have hview : (pinnedSess .owner db u.id).view = db := rfl
  rw [hview] at hown
  cases hfind : db.userFiles.find? fun f => f.id = fileId && f.userId = u.id with
  | none =>
    rw [hfind] at hown
    rw [exec_bind_error hown]
    rfl
  | some f =>
    rw [hfind] at hown
    rw [exec_bind_ok hown]
    have hmem := List.mem_of_find?_eq_some hfind
    have hread : ((userFiles.rows db).filter fun g => userFiles.key g = f.id).head? = some f := by
      rw [List.head?_filter]
      cases hfound : (userFiles.rows db).find? fun g => userFiles.key g = f.id with
      | none => exact absurd (decide_eq_true rfl) (List.find?_eq_none.mp hfound f hmem)
      | some g =>
        have hid : userFiles.key g = f.id := by simpa using List.find?_some hfound
        rw [List.inj_on_of_nodup_map h.fileRows.keys (List.mem_of_find?_eq_some hfound) hmem hid]
    have hrefresh : exec (refresh userFiles f.id : Handler UserFile) (pinnedSess .owner db u.id) =
        (.ok f, pinnedSess .owner db u.id) := by
      unfold refresh RowSecurity.getById
      rw [bind_assoc, exec_bind_ok (exec_select_owner rfl), hview, pure_bind, hread]
      rfl
    rw [exec_bind_ok hrefresh]
    rfl

/-- An attachment, once its upload was confirmed, is served to its owner in every later state as it was
uploaded, until the owner deletes it or the account; nobody else is told that it is there. -/
theorem uploads_are_served {before after : History} {env₀ : Env} {role₀ : Role} {browser : ℕ}
    {cookie : Cookie} {up : Upload} {f : FileOut}
    (h : Reached G (before ++ (.social env₀ role₀ browser cookie (.uploadFile up), .social (.created f)) ::
      after) s)
    (hme : cookie.userId = some me) (hkept : ∀ e ∈ after, ¬ EndsFile me f.id e) :
    ∃ contentType, checkUpload env₀ up = .ok contentType ∧ ∀ (env : Env) (role : Role) (download : Bool),
      (serve env role s.db me (.getFile f.id download)).1 =
        .content up.data contentType (if download then "attachment" else "inline")
          (cleanFilename up.filename) ∧
      ∀ other, other ≠ me → s.db.hasUser other = true →
        (serve env role s.db other (.getFile f.id download)).1 = .http 404 "File not found" := by
  obtain ⟨s₁, s₂, hbefore, ⟨_, hstep⟩, hafter⟩ := h.split
  have hsound₁ := reached_sound hbefore
  have hstored : f.id = env₀.newId ∧ ∃ contentType, checkUpload env₀ up = .ok contentType ∧
      uploadedFile env₀ me up contentType ∈ s₂.db.userFiles := by
    obtain ⟨_, hanswer, rfl⟩ := Site.step_social hstep
    simp only [Answer.social.injEq, authorized, hme] at hanswer ⊢
    have heffect := serve_effect env₀ role₀ hsound₁.intact.keyed me (.uploadFile up)
    rw [← hanswer] at heffect
    exact heffect.created_stored
  obtain ⟨hid₀, contentType, hcheck, hrow⟩ := hstored
  refine ⟨contentType, hcheck, fun env role download => ?_⟩
  have hthere : uploadedFile env₀ me up contentType ∈ s.db.userFiles := by
    refine hafter.persists (fun _ t => t.Sound)
      (fun t => uploadedFile env₀ me up contentType ∈ t.db.userFiles) (EndsFile me f.id)
      ?_ ?_ (hsound₁.step hstep) hkept hrow
    · rintro past t ⟨move, answer⟩ t' ht ⟨_, hst⟩
      exact ht.step hst
    · rintro past t ⟨move, answer⟩ t' ht ⟨_, hst⟩ hends hmem
      rw [hid₀] at hends
      exact (file_step ht.intact hst hmem).resolve_right hends
  have hintact := (reached_sound h).intact
  have hfits := hintact.fileRows.fits _ hthere
  simp only [userFiles, uploadedFile, Bool.and_eq_true] at hfits
  have honly : ∀ g ∈ s.db.userFiles, g.id = f.id → g = uploadedFile env₀ me up contentType :=
    fun g hg hid => List.inj_on_of_nodup_map hintact.fileRows.keys hg hthere (hid.trans hid₀)
  constructor
  · rw [serve_getFile hintact env role hfits.1.1.1]
    cases hfind : s.db.userFiles.find? fun g => g.id = f.id && g.userId = me with
    | none =>
      have hnot := List.find?_eq_none.mp hfind _ hthere
      simp [uploadedFile, hid₀] at hnot
    | some g =>
      have hid := List.find?_some hfind
      rw [Bool.and_eq_true, decide_eq_true_eq] at hid
      rw [honly g (List.mem_of_find?_eq_some hfind) hid.1]
      simp only [uploadedFile]
  · intro other hother hhas
    rw [serve_getFile hintact env role hhas]
    cases hfind : s.db.userFiles.find? fun g => g.id = f.id && g.userId = other with
    | none => rfl
    | some g =>
      have hid := List.find?_some hfind
      rw [Bool.and_eq_true, decide_eq_true_eq, decide_eq_true_eq] at hid
      rw [honly g (List.mem_of_find?_eq_some hfind) hid.1] at hid
      exact absurd hid.2.symm hother

theorem uploads_are_served_meeting :
    ∃ s' : Site, took meeting (requests 0 .owner (.uploadFile attachment)) = some (s', .social (.created
        { id := 0, itemId := 2, itemName := "Chopin Gala", filename := "file"
          contentType := "application/pdf", size := 5, createdAt := 0 })) ∧
      ∃ contentType, (serve plainEnv .runtime s'.db 0 (.getFile 0 true)).1 =
        .content pdfMagic contentType "attachment" (cleanFilename none) := by
  obtain ⟨s', htook⟩ := took_some meeting (requests 0 .owner (.uploadFile attachment)) (.social (.created
    { id := 0, itemId := 2, itemName := "Chopin Gala", filename := "file"
      contentType := "application/pdf", size := 5, createdAt := 0 })) (by decide)
  obtain ⟨contentType, _, hserved⟩ := uploads_are_served (took_reached meeting (by decide) htook)
    rfl (by simp)
  exact ⟨s', htook, contentType, (hserved plainEnv .runtime true).1⟩

/-- The upload that a row was stored for. -/
def UploadedBy (past : History) (row : UserFile) : Prop :=
  ∃ env role browser cookie up r, (Move.social env role browser cookie (.uploadFile up), .social r) ∈ past ∧
    cookie.userId = some row.userId ∧ ConfirmedAs role row.id r ∧
    checkUpload env up = .ok row.contentType ∧ up.data = row.data ∧
      cleanFilename up.filename = row.filename ∧ up.itemId = row.itemId

theorem UploadedBy.later {row : UserFile} (h : UploadedBy past row) (e : Move × Answer) :
    UploadedBy (past ++ [e]) row := by
  obtain ⟨env, role, browser, cookie, up, r, hmem, hrest⟩ := h
  exact ⟨env, role, browser, cookie, up, r, List.mem_append_left _ hmem, hrest⟩

theorem file_origin (h : Reached G past s) : ∀ row ∈ s.db.userFiles, UploadedBy past row := by
  have hall : s.Sound ∧ ∀ row ∈ s.db.userFiles, UploadedBy past row := by
    refine h.invariant_of_init (fun past s => s.Sound ∧ ∀ row ∈ s.db.userFiles, UploadedBy past row)
      ?_ ⟨sound_empty, fun _ hrow => absurd hrow List.not_mem_nil⟩
    rintro past t ⟨move, answer⟩ t' ⟨hsound, hpast⟩ ⟨_, hstep⟩
    refine ⟨hsound.step hstep, fun row hrow => ?_⟩
    obtain ⟨d, im, ev, rfl⟩ | ⟨log, hdb⟩ | ⟨cards, hdb⟩ | hsame |
        ⟨env, role, browser, cookie, me, call, rfl, rfl, hc, heffect⟩ := Site.step_cases hsound.intact hstep
    · obtain ⟨p, r, _, _, rfl⟩ := Site.step_profile hstep
      exact (hpast row (List.mem_filter.mp hrow).1).later _
    · rw [hdb] at hrow
      exact (hpast row hrow).later _
    · rw [hdb] at hrow
      exact (hpast row hrow).later _
    · rw [hsame] at hrow
      exact (hpast row hrow).later _
    · obtain hold | ⟨up, contentType, rfl, hcheck, haccepted, rfl, hanswer⟩ := heffect.files_origin hrow
      · exact (hpast row hold).later _
      · have hconfirmed : ConfirmedAs role env.newId (serve env role t.db me (.uploadFile up)).1 :=
          confirmedAs_of_accepted haccepted rfl hanswer
        refine ⟨env, role, browser, cookie, up, _,
          List.mem_append_right _ (List.mem_singleton.mpr rfl), ?_⟩
        simp only [uploadedFile]
        exact ⟨hc, hconfirmed, hcheck, trivial, trivial, trivial⟩
  exact hall.2

/-- What a user is served under a file's address is something this user once uploaded: those bytes,
under the type that was found in them and the name that was cleaned. -/
theorem served_files_were_uploaded (h : Reached G past s) (env : Env) (role : Role) (download : Bool)
    {fileId : ℕ} {data : List UInt8} {mediaType disposition filename : String}
    (hserved : (serve env role s.db me (.getFile fileId download)).1 =
      .content data mediaType disposition filename) :
    ∃ env₀ role₀ browser cookie up r,
      (Move.social env₀ role₀ browser cookie (.uploadFile up), Answer.social r) ∈ past ∧
      cookie.userId = some me ∧ ConfirmedAs role₀ fileId r ∧ up.data = data ∧
      checkUpload env₀ up = .ok mediaType ∧ cleanFilename up.filename = filename ∧
      mediaType ∈ storedTypes ∧ data.length ≤ 5242880 := by
  have hintact := (reached_sound h).intact
  have hme : s.db.hasUser me = true := by
    by_contra hnone
    rw [serve_signedOut (Bool.eq_false_of_not_eq_true hnone)] at hserved
    cases hserved
  rw [serve_getFile hintact env role hme] at hserved
  cases hfind : s.db.userFiles.find? fun f => f.id = fileId && f.userId = me with
  | none =>
    rw [hfind] at hserved
    cases hserved
  | some row =>
    rw [hfind] at hserved
    simp only [Response.content.injEq] at hserved
    obtain ⟨rfl, rfl, _, rfl⟩ := hserved
    have hrow := List.mem_of_find?_eq_some hfind
    have hown := List.find?_some hfind
    rw [Bool.and_eq_true, decide_eq_true_eq, decide_eq_true_eq] at hown
    obtain ⟨env₀, role₀, browser, cookie, up, r, hmem, hc, hanswer, hcheck, hdata, hname, _⟩ :=
      file_origin h row hrow
    rw [hown.1] at hanswer
    have hfits := hintact.fileRows.fits row hrow
    simp only [userFiles, Bool.and_eq_true, decide_eq_true_eq, List.contains_iff_mem] at hfits
    exact ⟨env₀, role₀, browser, cookie, up, r, hmem, by rw [hc, hown.2], hanswer, hdata, hcheck, hname,
      hfits.2, hfits.1.2⟩

theorem served_files_were_uploaded_meeting :
    ∃ env₀ role₀ browser cookie up r,
      (Move.social env₀ role₀ browser cookie (.uploadFile up), Answer.social r) ∈ (played attaching).1 ∧
      cookie.userId = some 0 ∧ ConfirmedAs role₀ 0 r ∧ up.data = pdfMagic ∧
      checkUpload env₀ up = .ok "application/pdf" ∧
      cleanFilename up.filename = "file" ∧ "application/pdf" ∈ storedTypes ∧ pdfMagic.length ≤ 5242880 :=
  served_files_were_uploaded (played_reached attaching (by decide)) plainEnv .runtime true
    (show (serve plainEnv .runtime (played attaching).2.db 0 (.getFile 0 true)).1 =
      .content pdfMagic "application/pdf" "attachment" "file" by decide)

end WarsawEvents.Store
