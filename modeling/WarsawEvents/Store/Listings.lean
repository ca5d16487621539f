import WarsawEvents.Store.Effects

/-! # The users an answer shows

Five endpoints show users. Whatever the caller, the role and the tables, each of those users has a row,
and is shown with the name, the picture and the presence of that row.
-/

namespace WarsawEvents.Store
set_option autoImplicit false

open RowSecurity
open Coupling

variable {env : Env} {db : Db} {id : ℕ}

/-- Every run of the endpoint over `db` ends in an answer with `P`. -/
def Answers (db : Db) (m : Handler Response) (P : Response → Prop) : Prop :=
  ∀ s : Sess, s.view = db → P (Friends.answered (exec m s))

section Answers
variable {ρ : Type} {T : RowSecurity.Table ρ} {P : Response → Prop}

theorem Answers.select {p : ρ → Bool} {f : List ρ → Handler Response}
    (hf : ∀ rows : List ρ, (∀ x ∈ rows, x ∈ T.rows db) → Answers db (f rows) P) :
    Answers db (select T p >>= f) P := by
  rintro s rfl
  rw [exec_bind_ok (exec_select s)]
  exact hf _ (fun x hx => (List.mem_filter.mp hx).1) s rfl

theorem Answers.getById {f : Option ρ → Handler Response}
    (hf : ∀ found : Option ρ, (∀ x ∈ found, x ∈ T.rows db) → Answers db (f found) P) :
    Answers db (getById T id >>= f) P := by
  unfold RowSecurity.getById
  rw [bind_assoc]
  refine Answers.select fun rows hrows => ?_
  rw [pure_bind]
  exact hf _ fun x hx => hrows x (List.mem_of_mem_head? hx)

theorem Answers.friendship {a b : ℕ} {f : Option Friendship → Handler Response}
    (hcrash : P .serverError) (hf : ∀ row, Answers db (f row) P) :
    Answers db (friendship a b >>= f) P := by
  unfold RowSecurity.friendship
  rw [bind_assoc]
  refine Answers.select fun rows _ => ?_
  match rows with
  | [] => exact hf none
  | [row] => exact hf (some row)
  | _ :: _ :: _ => exact fun _ _ => hcrash

end Answers

/-- Every user shown is a row of the table, under some label. -/
def ShowsRows (env : Env) (db : Db) (r : Response) : Prop :=
  ∀ u ∈ Friends.shownUsers r, ∃ v ∈ db.users, ∃ relation, u = publicUser env v relation

theorem publicUsers_show (ids : List ℕ) (relation : Relation) :
    Answers db (publicUsers env ids relation) (ShowsRows env db) := by
  unfold publicUsers
  split_ifs
  · exact fun _ _ _ => nofun
  · refine Answers.select fun found hfound => ?_
    rintro s rfl u hu
    obtain ⟨v, hv, rfl⟩ := List.mem_map.mp hu
    exact ⟨v, hfound v hv, relation, rfl⟩

theorem listing_shows (env : Env) (u : Person) (l : Friends.Listing) :
    Answers db (l.call.handler env u) (ShowsRows env db) := by
  cases l with
  | searchUsers q =>
    refine Answers.select fun found hfound => ?_
    unfold myStatuses
    rw [bind_assoc]
    refine Answers.select fun _ _ => ?_
    rintro s rfl v hv
    obtain ⟨w, hw, rfl⟩ := List.mem_map.mp hv
    exact ⟨w, hfound w ((List.mem_insertionSort _).mp (List.mem_of_mem_take hw)), _, rfl⟩
  | getProfile userId =>
    refine Answers.getById fun found hfound => ?_
    cases found with
    | none => exact fun _ _ _ => nofun
    | some target =>
      have hknown : ∀ relation, ShowsRows env db (.user (publicUser env target relation)) := by
        intro relation v hv
        rw [List.mem_singleton.mp hv]
        exact ⟨target, hfound target rfl, relation, rfl⟩
      simp only
      split_ifs
      · exact fun _ _ => hknown _
      · exact Answers.friendship (fun _ => nofun) fun _ _ _ => hknown _
  | listFriends limit => exact Answers.select fun _ _ => publicUsers_show _ _
  | listRequests limit => exact Answers.select fun _ _ => publicUsers_show _ _
  | listSharedWithMe limit =>
    refine Answers.select fun rows _ => Answers.select fun cards _ => Answers.select fun senders hsenders => ?_
    rintro s rfl v hv
    obtain ⟨out, hout, rfl⟩ := List.mem_map.mp hv
    obtain ⟨share, _, hjoin⟩ := List.mem_filterMap.mp (List.mem_of_mem_take hout)
    split at hjoin
    · next item sender _ hsender =>
      cases hjoin
      exact ⟨sender, hsenders sender (List.mem_of_find?_eq_some hsender), _, rfl⟩
    · cases hjoin

theorem serve_listing_shows (env : Env) (role : Role) (uid : ℕ) (l : Friends.Listing) :
    ShowsRows env db (serve env role db uid l.call).1 := by
  cases huid : db.hasUser uid with
  | false =>
    rw [serve_signedOut huid]
    exact fun _ => nofun
  | true =>
    obtain ⟨u, _, hanswer, _⟩ := serve_ends env role l.call huid
    rw [hanswer]
    exact listing_shows env u l _ rfl

end WarsawEvents.Store
