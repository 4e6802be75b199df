/-
  ServerlessYARN model — removing a container from an application, answer by answer
  (`remove_container_from_app_db` of `ui/background_tasks.py`, with `web_request`).

  The database may leave requests without a response, and its answers are arbitrary.  A
  container that is missing in the application ends the loop like every other answer, and
  its error is returned.

  * `removalLoop_delivered`: the first answer decides;
  * `container_removal_silent_iff`: when no error is returned;
  * `removal_silent_iff_present`: over a database that takes the container out once, no error
    is returned only if the container was still there at the first answer;
  * `task_removal_eq`: the removal in the model of the tasks.
-/
import ServerlessYarn.Lib.Trim
import ServerlessYarn.Tasks

namespace ServerlessYarn

namespace ContainerRemoval

/-! ## The function -/

/-- The answers to the requests for an address, one after the other; `none` stands for the
    response `""` that the callers look out for. -/
abbrev Answers := String → ℕ → Py (Option Response)

/-- The error of `web_request`. -/
def errorText (error_message : String) : Option Response → String
  | some r => if r.ok then "" else String.join [error_message, ": ", r.text]
  | none => ""

/-- `web_request(full_url, "delete", error_message)`, the `i`-th one for this address. -/
def webDelete (answers : Answers) (full_url error_message : String) (i : ℕ) :
    Py (String × Option Response) := do
  let response ← answers full_url i
  return (errorText error_message response, response)

def maxRetries : ℕ := 10

/-- `full_url[:full_url.rfind('/')]`. -/
def parentUrl (full_url : String) : String :=
  let s := full_url.toList
  String.ofList (if '/' ∈ s then (s.rdropWhile (· ≠ '/')).dropLast else s.dropLast)

/-- The text of an error about the application. -/
def appErrorMessage (container_name app : String) : String :=
  String.join ["Error removing container ", container_name, " from app ", app]

/-- The loop of `remove_container_from_app_db`, with the tries that are left: the error,
    and the number of tries without a response. -/
def removalLoop (answers : Answers) (full_url container_name app error : String) (actual_try : ℕ) :
    ℕ → Py (String × ℕ)
  | 0 => return (error, actual_try)
  | tries + 1 => do
    let (error, response) ← webDelete answers full_url (appErrorMessage container_name app) actual_try
    match response with
    | some r =>
      if error = "" then return (error, actual_try)
      -- Container was already removed from app
      else if r.status_code = 400 ∧ "missing in app".toList <:+: error.toList then
        return (error, actual_try)
      else return (error, actual_try)
    | none => removalLoop answers full_url container_name app error (actual_try + 1) tries

/-- `remove_container_from_db`. -/
def removeContainerFromDb (answers : Answers) (full_url container_name : String) : Py String := do
  let (error, _) ← webDelete answers full_url
    (String.join ["Error removing container ", container_name]) 0
  return error

/-- `remove_container_from_app_db`. -/
def removeContainerFromAppDb (answers : Answers) (full_url container_name app : String) :
    Py String := do
  let (error, actual_try) ← removalLoop answers full_url container_name app "" 0 maxRetries
  let error := if maxRetries ≤ actual_try then
    String.join ["Reached max tries when removing ", container_name, " from app ", app] else error
  -- Remove the container itself
  let remove_error ← removeContainerFromDb answers (parentUrl full_url) container_name
  return if remove_error ≠ "" then remove_error else error

/-- `url + "container/{0}/{1}".format(container_name, app)`. -/
def containerUrl (url container_name app : String) : String :=
  String.join [url, "container/", container_name, "/", app]

/-- The container itself is deleted under its own address, if the name of the application
    has no slash. -/
theorem parentUrl_containerUrl {app : String} (happ : '/' ∉ app.toList) (url container_name : String) :
    parentUrl (containerUrl url container_name app) = String.join [url, "container/", container_name] := by
  have hchars : (containerUrl url container_name app).toList =
      (String.join [url, "container/", container_name]).toList ++ '/' :: app.toList := by
    simp [containerUrl]
  have hdrop : app.toList.rdropWhile (· ≠ '/') = [] := by
    refine List.rdropWhile_eq_nil_iff.2 fun c hc => ?_
    rw [decide_eq_true_eq]
    rintro rfl
    exact happ hc
  simp only [parentUrl, hchars]
  rw [if_pos (by simp), Trim.rdropWhile_append_cons (by simp), hdrop, List.dropLast_concat,
    String.ofList_toList]

/-! ## The answers -/

/-- The first answer among the tries. -/
structure FirstAnswer (answers : Answers) (full_url : String) (k : ℕ) (r : Response) : Prop where
  tried : k < maxRetries
  silent : ∀ i < k, answers full_url i = .ok none
  answered : answers full_url k = .ok (some r)

/-- The final deletion gives no error. -/
def ContainerDeleted (answers : Answers) (full_url : String) : Prop :=
  ∃ response, answers full_url 0 = .ok response ∧ ∀ r ∈ response, r.ok = true

theorem errorText_eq_empty_iff {error_message : String} {response : Option Response} :
    errorText error_message response = "" ↔ (∀ r ∈ response, r.ok = true) := by
  cases response with
  | none => simp [errorText]
  | some r =>
    by_cases hr : r.ok = true
    · simp [errorText, hr]
    · simp [errorText, hr]

/-- The answers up to the first one that is delivered or raised. -/
theorem answers_cases (f : ℕ → Py (Option Response)) (m : ℕ) :
    (∀ i < m, f i = .ok none) ∨
      ∃ k < m, (∀ i < k, f i = .ok none) ∧ ((∃ r, f k = .ok (some r)) ∨ ∃ e, f k = .error e) := by
  induction m with
  | zero => exact .inl fun i hi => absurd hi (Nat.not_lt_zero i)
  | succ m ih =>
    rcases ih with hsilent | ⟨k, hk, h⟩
    · cases hm : f m with
      | error e => exact .inr ⟨m, Nat.lt_succ_self m, hsilent, .inr ⟨e, hm⟩⟩
      | ok response =>
        cases response with
        | some r => exact .inr ⟨m, Nat.lt_succ_self m, hsilent, .inl ⟨r, hm⟩⟩
        | none =>
          refine .inl fun i hi => ?_
          rcases Nat.lt_succ_iff_lt_or_eq.1 hi with hi | rfl
          · exact hsilent i hi
          · exact hm
    · exact .inr ⟨k, Nat.lt_succ_of_lt hk, h⟩

section
variable {answers : Answers} {full_url container_name app : String}

/-! ## The loop -/

theorem webDelete_of_ok {error_message : String} {i : ℕ} {response : Option Response}
    (h : answers full_url i = .ok response) :
    webDelete answers full_url error_message i = .ok (errorText error_message response, response) := by
  unfold webDelete
  rw [h]
  rfl

theorem removalLoop_silent {error : String} {n tries : ℕ} (hn : answers full_url n = .ok none) :
    removalLoop answers full_url container_name app error n (tries + 1) =
      removalLoop answers full_url container_name app "" (n + 1) tries := by
  rw [removalLoop, webDelete_of_ok hn]
  rfl

/-- Every answer ends the loop, whatever it says. -/
theorem removalLoop_answered {error : String} {n tries : ℕ} {r : Response}
    (hn : answers full_url n = .ok (some r)) :
    removalLoop answers full_url container_name app error n (tries + 1) =
      .ok (errorText (appErrorMessage container_name app) (some r), n) := by
  rw [removalLoop, webDelete_of_ok hn]
  dsimp only [bind, Except.bind]
  split_ifs <;> rfl

theorem removalLoop_raised {error : String} {n tries : ℕ} {e : PyError}
    (hn : answers full_url n = .error e) :
    removalLoop answers full_url container_name app error n (tries + 1) = .error e := by
  rw [removalLoop]
  unfold webDelete
  rw [hn]
  rfl

/-- Tries without a response pass by. -/
theorem removalLoop_skip {k n : ℕ} (tries : ℕ) (hsilent : ∀ i < k, answers full_url (n + i) = .ok none) :
    removalLoop answers full_url container_name app "" n (k + tries) =
      removalLoop answers full_url container_name app "" (n + k) tries := by
  induction k generalizing n with
  | zero => simp
  | succ k ih =>
    have hfirst : answers full_url n = .ok none := hsilent 0 (Nat.succ_pos k)
    have hrest : ∀ i < k, answers full_url (n + 1 + i) = .ok none := by
      intro i hi
      have h := hsilent (i + 1) (Nat.succ_lt_succ hi)
      rwa [show n + (i + 1) = n + 1 + i by omega] at h
    rw [show k + 1 + tries = k + tries + 1 by omega, removalLoop_silent hfirst, ih hrest,
      show n + 1 + k = n + (k + 1) by omega]

theorem removalLoop_all_silent (h : ∀ i < maxRetries, answers full_url i = .ok none) :
    removalLoop answers full_url container_name app "" 0 maxRetries = .ok ("", maxRetries) := by
  have hsilent : ∀ i < maxRetries, answers full_url (0 + i) = .ok none := by
    intro i hi
    rw [Nat.zero_add]
    exact h i hi
  exact removalLoop_skip 0 hsilent

/-- The loop comes to the first try that is not silent. -/
theorem removalLoop_reaches {k : ℕ} (hk : k < maxRetries)
    (hsilent : ∀ i < k, answers full_url i = .ok none) :
    removalLoop answers full_url container_name app "" 0 maxRetries =
      removalLoop answers full_url container_name app "" k (maxRetries - (k + 1) + 1) := by
  have hsplit : maxRetries = k + (maxRetries - (k + 1) + 1) := by omega
  have hshift : ∀ i < k, answers full_url (0 + i) = .ok none := by
    intro i hi
    rw [Nat.zero_add]
    exact hsilent i hi
  calc removalLoop answers full_url container_name app "" 0 maxRetries
      = removalLoop answers full_url container_name app "" 0 (k + (maxRetries - (k + 1) + 1)) := by
        rw [← hsplit]
    _ = removalLoop answers full_url container_name app "" (0 + k) (maxRetries - (k + 1) + 1) :=
        removalLoop_skip _ hshift
    _ = removalLoop answers full_url container_name app "" k (maxRetries - (k + 1) + 1) := by
        rw [Nat.zero_add]

/-- The loop returns what the first answer says. -/
theorem removalLoop_delivered {k : ℕ} {r : Response} (h : FirstAnswer answers full_url k r) :
    removalLoop answers full_url container_name app "" 0 maxRetries =
      .ok (errorText (appErrorMessage container_name app) (some r), k) := by
  rw [removalLoop_reaches h.tried h.silent, removalLoop_answered h.answered]

/-! ## The removal -/

theorem removeContainerFromDb_eq_empty_iff (container_name : String) :
    removeContainerFromDb answers full_url container_name = .ok "" ↔
      ContainerDeleted answers full_url := by
  unfold removeContainerFromDb webDelete ContainerDeleted
  constructor
  · intro h
    obtain ⟨⟨error, response⟩, hdelete, h⟩ := bind_eq_ok.1 h
    obtain ⟨response', hresponse, hdelete⟩ := bind_eq_ok.1 hdelete
    cases hdelete
    exact ⟨response, hresponse, errorText_eq_empty_iff.1 (pure_eq_ok.1 h)⟩
  · rintro ⟨response, hresponse, hok⟩
    rw [hresponse]
    exact congrArg Except.ok (errorText_eq_empty_iff.2 hok)

/-- How the removal goes on after the loop. -/
theorem removeContainerFromAppDb_of_loop {error : String} {actual_try : ℕ}
    (hloop : removalLoop answers full_url container_name app "" 0 maxRetries = .ok (error, actual_try)) :
    removeContainerFromAppDb answers full_url container_name app = .ok "" ↔
      (actual_try < maxRetries ∧ error = "") ∧ ContainerDeleted answers (parentUrl full_url) := by
  have hrest : removeContainerFromAppDb answers full_url container_name app =
      (removeContainerFromDb answers (parentUrl full_url) container_name >>= fun remove_error =>
        pure (if remove_error ≠ "" then remove_error else
          if maxRetries ≤ actual_try then
            String.join ["Reached max tries when removing ", container_name, " from app ", app]
          else error)) := by
    unfold removeContainerFromAppDb
    rw [hloop]
    rfl
  rw [hrest, bind_eq_ok, ← removeContainerFromDb_eq_empty_iff container_name]
  constructor
  · rintro ⟨remove_error, hremove, h⟩
    rw [pure_eq_ok] at h
    split_ifs at h with hfinal htries
    · exact absurd h hfinal
    · simp at h
    · rw [not_not] at hfinal
      rw [hremove, hfinal]
      exact ⟨⟨Nat.lt_of_not_le htries, h⟩, rfl⟩
  · rintro ⟨⟨htries, rfl⟩, hremove⟩
    refine ⟨"", hremove, ?_⟩
    rw [pure_eq_ok, if_neg (not_not.2 rfl), if_neg (Nat.not_le.2 htries)]

theorem FirstAnswer.eq_of_silent {k k' : ℕ} {r : Response} (h : FirstAnswer answers full_url k' r)
    (hsilent : ∀ i < k, answers full_url i = .ok none) (hk : answers full_url k ≠ .ok none) : k' = k := by
  rcases Nat.lt_trichotomy k' k with hlt | heq | hgt
  · have hanswered := h.answered
    rw [hsilent k' hlt] at hanswered
    cases hanswered
  · exact heq
  · exact absurd (h.silent k hgt) hk

/-- **No error is returned exactly when the first answer within the tries is a success, and
    the container itself is deleted.** -/
theorem container_removal_silent_iff (answers : Answers) (full_url container_name app : String) :
    removeContainerFromAppDb answers full_url container_name app = .ok "" ↔
      (∃ k r, FirstAnswer answers full_url k r ∧ r.ok = true) ∧
        ContainerDeleted answers (parentUrl full_url) := by
  rcases answers_cases (answers full_url) maxRetries with hsilent | ⟨k, hk, hsilent, ⟨r, hr⟩ | ⟨e, he⟩⟩
  · have hloop : removalLoop answers full_url container_name app "" 0 maxRetries =
        .ok ("", maxRetries) := removalLoop_all_silent hsilent
    rw [removeContainerFromAppDb_of_loop hloop]
    constructor
    · rintro ⟨⟨hlt, -⟩, -⟩
      exact absurd hlt (Nat.lt_irrefl _)
    · rintro ⟨⟨k, r, hfirst, -⟩, -⟩
      have hanswered := hfirst.answered
      rw [hsilent k hfirst.tried] at hanswered
      cases hanswered
  · rw [removeContainerFromAppDb_of_loop (removalLoop_delivered ⟨hk, hsilent, hr⟩),
      errorText_eq_empty_iff]
    refine and_congr_left fun _ => ?_
    constructor
    · rintro ⟨-, hok⟩
      exact ⟨k, r, ⟨hk, hsilent, hr⟩, hok r rfl⟩
    · rintro ⟨k', r', hfirst, hok⟩
      have hkk' := hfirst.eq_of_silent hsilent (by simp [hr])
      subst hkk'
      have hanswered := hfirst.answered
      rw [hr] at hanswered
      cases hanswered
      exact ⟨hk, by simpa using hok⟩
  · have hraises : removeContainerFromAppDb answers full_url container_name app = .error e := by
      unfold removeContainerFromAppDb
      rw [removalLoop_reaches hk hsilent, removalLoop_raised he]
      rfl
    rw [hraises]
    constructor
    · intro h
      cases h
    · rintro ⟨⟨k', r', hfirst, -⟩, -⟩
      have hkk' := hfirst.eq_of_silent hsilent (by simp [he])
      subst hkk'
      have hanswered := hfirst.answered
      rw [he] at hanswered
      cases hanswered

end

/-- The container is missing in the application, the first answer says so, and its error is returned. -/
theorem container_removal_reported :
    removeContainerFromAppDb
        (fun full_url _ => .ok (if full_url = "http://db/container/c0" then some ⟨200, ""⟩
          else some ⟨400, "Container c0 missing in app app1"⟩))
        (containerUrl "http://db/" "c0" "app1") "c0" "app1" =
      .ok "Error removing container c0 from app app1: Container c0 missing in app app1" := by
  decide +kernel

/-! ## Lost answers -/

/-- What becomes of a try. -/
structure Try where
  /-- Another removal takes the container out of the application before the request comes. -/
  taken : Bool
  /-- The request reaches the database. -/
  arrives : Bool
  /-- Its answer comes back. -/
  answered : Bool

/-- The container is not in the application any more when the `k`-th request comes. -/
def Gone (tries : ℕ → Try) (k : ℕ) : Prop :=
  (∃ i ≤ k, (tries i).taken = true) ∨ ∃ i < k, (tries i).arrives = true

instance (tries : ℕ → Try) (k : ℕ) : Decidable (Gone tries k) :=
  inferInstanceAs (Decidable (_ ∨ _))

/-- The answers of a database that takes a container out of an application once. -/
def databaseAnswers (missing : String) (tries : ℕ → Try) (k : ℕ) : Option Response :=
  if (tries k).arrives ∧ (tries k).answered then
    if Gone tries k then some ⟨400, missing⟩ else some ⟨200, ""⟩
  else none

/-- **After any losses, no error is returned only if the container was still there when the
    first answered request came.** -/
theorem removal_silent_iff_present {answers : Answers} {full_url container_name app missing : String}
    {tries : ℕ → Try} {k : ℕ} (hk : k < maxRetries)
    (hanswers : ∀ i, answers full_url i = .ok (databaseAnswers missing tries i))
    (hlost : ∀ i < k, ¬ ((tries i).arrives = true ∧ (tries i).answered = true))
    (hanswered : (tries k).arrives = true ∧ (tries k).answered = true)
    (hdeleted : ContainerDeleted answers (parentUrl full_url)) :
    removeContainerFromAppDb answers full_url container_name app = .ok "" ↔ ¬ Gone tries k := by
  have hsilent : ∀ i < k, answers full_url i = .ok none := by
    intro i hi
    rw [hanswers, databaseAnswers, if_neg (hlost i hi)]
  have hfirst : FirstAnswer answers full_url k (if Gone tries k then ⟨400, missing⟩ else ⟨200, ""⟩) := by
    refine ⟨hk, hsilent, ?_⟩
    rw [hanswers, databaseAnswers, if_pos hanswered]
    split_ifs <;> rfl
  rw [removeContainerFromAppDb_of_loop (removalLoop_delivered hfirst), errorText_eq_empty_iff]
  by_cases hgone : Gone tries k
  · simp [hgone, Response.ok]
  · simp [hgone, hk, hdeleted, Response.ok]

/-! ## The tasks -/

open Tasks

/-- What the database gives to a request after these events. -/
def answerAfter (ext : External) (history : List Event) (r : DbRequest) : Py (Option Response) :=
  match ext.raises history (.db r) with
  | some err => .error err
  | none => .ok (some (ext.response history r))

/-- The event of a request that was answered. -/
def requestEvent (ext : External) (history : List Event) (r : DbRequest) : Event :=
  ⟨.db r, if (ext.response history r).ok then .done else .refused⟩

/-- The answers that a removal gets in the model of the tasks, which knows no lost ones. -/
def taskAnswers (ext : External) (w : World) (full_url container_name app : String) : Answers :=
  fun asked_url _ =>
    if asked_url = full_url then answerAfter ext w.history (.container_of_app container_name app)
    else answerAfter ext
      (w.history ++ [requestEvent ext w.history (.container_of_app container_name app)])
      (.container container_name)

/-- What a task returns or raises. -/
def outcome {α : Type} (t : Task α) (w : World) : Py α :=
  match t w with
  | .ok a _ => .ok a
  | .error err _ => .error err

theorem parentUrl_ne {full_url : String} (h : full_url ≠ "") : parentUrl full_url ≠ full_url := by
  have hne : full_url.toList ≠ [] := by simpa using h
  have hpos : 0 < full_url.toList.length := List.length_pos_iff.2 hne
  have hle : (full_url.toList.rdropWhile (· ≠ '/')).length ≤ full_url.toList.length :=
    (List.rdropWhile_prefix _ _).length_le
  intro heq
  have hlength := congrArg (fun u => u.toList.length) heq
  simp only [parentUrl, String.toList_ofList] at hlength
  split_ifs at hlength with hslash
  · rw [List.length_dropLast] at hlength
    omega
  · rw [List.length_dropLast] at hlength
    omega

theorem outcome_bind {α β : Type} (t : Task α) (f : α → Task β) (w : World) :
    outcome (t >>= f) w =
      match t w with
      | .ok a w' => outcome (f a) w'
      | .error err _ => .error err := by
  unfold outcome
  simp only [bind, EStateM.bind]
  cases t w <;> rfl

theorem webRequest_eq (ext : External) (r : DbRequest) (error_message : String) (w : World) :
    (∃ err w', webRequest ext r error_message w = .error err w' ∧
      answerAfter ext w.history r = .error err) ∨
    ∃ w', webRequest ext r error_message w =
        .ok (errorText error_message (some (ext.response w.history r)), some (ext.response w.history r)) w' ∧
      w'.history = w.history ++ [requestEvent ext w.history r] ∧
      answerAfter ext w.history r = .ok (some (ext.response w.history r)) := by
  unfold webRequest answerAfter requestEvent errorText
  cases ext.raises w.history (.db r) with
  | some err => exact .inl ⟨err, _, rfl, rfl⟩
  | none =>
    refine .inr ?_
    by_cases hok : (ext.response w.history r).ok = true
    · dsimp only
      rw [if_pos hok, if_pos hok, if_pos hok]
      exact ⟨_, rfl, rfl, rfl⟩
    · dsimp only
      rw [if_neg hok, if_neg hok, if_neg hok]
      exact ⟨_, rfl, rfl, rfl⟩

theorem removeFromAppLoop_eq (ext : External) (container_name app : String) (tries : ℕ) (w : World) :
    (∃ err w', removeFromAppLoop ext container_name app (tries + 1) w = .error err w' ∧
      answerAfter ext w.history (.container_of_app container_name app) = .error err) ∨
    ∃ r w', removeFromAppLoop ext container_name app (tries + 1) w =
        .ok (errorText (appErrorMessage container_name app) (some r)) w' ∧
      w'.history = w.history ++ [requestEvent ext w.history (.container_of_app container_name app)] ∧
      answerAfter ext w.history (.container_of_app container_name app) = .ok (some r) := by
  rcases webRequest_eq ext (.container_of_app container_name app) (appErrorMessage container_name app) w
    with ⟨err, w', h, hanswer⟩ | ⟨w', h, hhistory, hanswer⟩
  · refine .inl ⟨err, w', ?_, hanswer⟩
    rw [removeFromAppLoop]
    simp only [bind, EStateM.bind]
    rw [show webRequest ext _ (String.join _) w = _ from h]
  · refine .inr ⟨_, w', ?_, hhistory, hanswer⟩
    rw [removeFromAppLoop]
    simp only [bind, EStateM.bind]
    rw [show webRequest ext _ (String.join _) w = _ from h]
    rfl

/-- The removal of the tasks is the one with the answers that their database gives. -/
theorem task_removal_eq (ext : External) (w : World) {full_url : String} (hurl : full_url ≠ "")
    (container_name app : String) :
    outcome (Tasks.removeContainerFromAppDb ext container_name app) w =
      removeContainerFromAppDb (taskAnswers ext w full_url container_name app) full_url
        container_name app := by
  set answers := taskAnswers ext w full_url container_name app with hanswers
  have hfirst (i : ℕ) : answers full_url i =
      answerAfter ext w.history (.container_of_app container_name app) := if_pos rfl
  have hfinal : answers (parentUrl full_url) 0 = answerAfter ext
      (w.history ++ [requestEvent ext w.history (.container_of_app container_name app)])
      (.container container_name) := if_neg (parentUrl_ne hurl)
  unfold Tasks.removeContainerFromAppDb removeContainerFromAppDb
  rw [outcome_bind]
  rcases removeFromAppLoop_eq ext container_name app 9 w with ⟨err, w', h, hanswer⟩ | ⟨r, w', h, hw', hanswer⟩
  · have hloop : removalLoop answers full_url container_name app "" 0 maxRetries = .error err :=
      removalLoop_raised ((hfirst 0).trans hanswer)
    rw [h, hloop]
    rfl
  · have hloop : removalLoop answers full_url container_name app "" 0 maxRetries =
        .ok (errorText (appErrorMessage container_name app) (some r), 0) :=
      removalLoop_answered ((hfirst 0).trans hanswer)
    rw [h, hloop]
    dsimp only
    rw [outcome_bind]
    unfold Tasks.removeContainerFromDb removeContainerFromDb webDelete
    rw [hfinal, ← hw']
    rcases webRequest_eq ext (.container container_name)
        (String.join ["Error removing container ", container_name]) w' with
      ⟨err, w'', hfail, hanswer'⟩ | ⟨w'', hok, -, hanswer'⟩
    · rw [hanswer']
      simp only [Functor.map, EStateM.map]
      rw [hfail]
      rfl
    · rw [hanswer']
      simp only [Functor.map, EStateM.map]
      rw [hok]
      simp [outcome, bind, Except.bind, pure, Except.pure, EStateM.pure, maxRetries]

end ContainerRemoval

end ServerlessYarn
