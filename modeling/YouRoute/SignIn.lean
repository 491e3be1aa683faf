import Mathlib.Data.List.Perm.Basic
import YouRoute.StepSystem

/-!
# Signing in, and the trip switch

The first page sends the credentials typed into it to be signed in, any number of
times before an answer comes. An answer either opens the main page or asks whether
an account should be created, unless a question is open already or the page is not on
the screen. No answer is lost or counted twice, whatever the order of taps and
answers, and nothing but an accepted sign-in opens a page. The
switch of the main page only asks at first, and changes when the question is
answered.
-/

namespace YouRoute
open StepSystem

structure Credentials where
  email : String
  password : String
deriving DecidableEq, Repr

/-- The page with its fields, its requests in flight, the alert that asks to create an account,
and the pages it has opened. -/
structure SignInPage where
  email : Option String := some ""
  password : Option String := some ""
  signingIn : List Credentials := []
  alert : Option Credentials := none
  creating : List Credentials := []
  opened : ℕ := 0
deriving DecidableEq, Repr

inductive SignInEvent where
  | typed (email password : Option String)
  | tapped
  | signedIn (request : ℕ) (accepted presented : Bool)
  | continued
  | cancelled
  | created (request : ℕ) (accepted : Bool)
deriving DecidableEq, Repr

namespace SignInPage

/-- What is sent by a tap: both fields, if they have a text. -/
def credentials (page : SignInPage) : Option Credentials :=
  match page.email, page.password with
  | some email, some password =>
      if email.isEmpty || password.isEmpty then none else some ⟨email, password⟩
  | _, _ => none

def didTapButton (page : SignInPage) : SignInPage :=
  { page with signingIn := page.signingIn ++ page.credentials.toList }

/-- The alert is not shown over another one, or where the page is not on the screen. -/
def showCreateAccount (page : SignInPage) (credentials : Credentials) (presented : Bool) :
    SignInPage :=
  if presented && page.alert.isNone then { page with alert := some credentials } else page

/-- The answer to one of the requests in flight. -/
def signedIn (page : SignInPage) (request : ℕ) (accepted presented : Bool) : Option SignInPage :=
  page.signingIn[request]?.map fun credentials =>
    let answered := { page with signingIn := page.signingIn.eraseIdx request }
    if accepted then { answered with opened := answered.opened + 1 }
    else answered.showCreateAccount credentials presented

def continued (page : SignInPage) : Option SignInPage :=
  page.alert.map fun credentials =>
    { page with alert := none, creating := page.creating ++ [credentials] }

def cancelled (page : SignInPage) : Option SignInPage :=
  page.alert.map fun _ => { page with alert := none }

/-- An account created signs the user in, but opens no page. -/
def created (page : SignInPage) (request : ℕ) (_accepted : Bool) : Option SignInPage :=
  page.creating[request]?.map fun _ => { page with creating := page.creating.eraseIdx request }

def step (page : SignInPage) : SignInEvent → Option SignInPage
  | .typed email password => some { page with email := email, password := password }
  | .tapped => some page.didTapButton
  | .signedIn request accepted presented => page.signedIn request accepted presented
  | .continued => page.continued
  | .cancelled => page.cancelled
  | .created request accepted => page.created request accepted

end SignInPage

/-- A page with what became of its requests. -/
structure SignInLog where
  page : SignInPage := {}
  sent : List Credentials := []
  accepted : List Credentials := []
  rejected : List Credentials := []
  confirmed : List Credentials := []
  declined : List Credentials := []
  unasked : List Credentials := []
  created : List Credentials := []
deriving DecidableEq, Repr

namespace SignInLog

/-- Keep account of what an event does to the requests. Only `Cancel` declines; a rejected one
goes unasked where the page is off the screen or another question is open. -/
def record (log : SignInLog) (page : SignInPage) : SignInEvent → SignInLog
  | .typed _ _ => { log with page := page }
  | .tapped => { log with page := page, sent := log.sent ++ log.page.credentials.toList }
  | .signedIn request accepted presented =>
      let answered := log.page.signingIn[request]?.toList
      if accepted then { log with page := page, accepted := log.accepted ++ answered }
      else if presented && log.page.alert.isNone then
        { log with page := page, rejected := log.rejected ++ answered }
      else
        { log with
          page := page
          rejected := log.rejected ++ answered
          unasked := log.unasked ++ answered }
  | .continued => { log with page := page, confirmed := log.confirmed ++ log.page.alert.toList }
  | .cancelled => { log with page := page, declined := log.declined ++ log.page.alert.toList }
  | .created request _ =>
      { log with page := page, created := log.created ++ log.page.creating[request]?.toList }

def step (log : SignInLog) (event : SignInEvent) : Option SignInLog :=
  (log.page.step event).map fun page => log.record page event

end SignInLog

/-- Every request is accounted for: one that was sent is accepted, rejected or in flight, one that
was rejected is confirmed, declined, asked about or could not be asked about, and for each one
that was confirmed an account is created, with an answer or still in flight. -/
structure SignInLog.Accounted (log : SignInLog) : Prop where
  sent : log.sent.Perm (log.accepted ++ log.rejected ++ log.page.signingIn)
  rejected : log.rejected.Perm
    (log.confirmed ++ log.declined ++ log.unasked ++ log.page.alert.toList)
  creating : log.confirmed.Perm (log.created ++ log.page.creating)
  complete : ∀ c ∈ log.sent, c.email ≠ "" ∧ c.password ≠ ""
  opened : log.page.opened = log.accepted.length

/-- The switch of the main page, the alert that asks whether to turn it on or off, and how
often this was confirmed. -/
structure TripSwitch where
  isOn : Bool := false
  alert : Option Bool := none
  confirmations : ℕ := 0
deriving DecidableEq, Repr

inductive TripEvent where
  | flipped (presented : Bool)
  | confirmed
  | cancelled
deriving DecidableEq, Repr

namespace TripSwitch

def present (s : TripSwitch) (turnOn presented : Bool) : TripSwitch :=
  if presented && s.alert.isNone then { s with alert := some turnOn } else s

/-- The action of the switch, which has already changed. -/
def switchValueChanged (s : TripSwitch) (presented : Bool) : TripSwitch :=
  if s.isOn then { s with isOn := false }.present true presented
  else { s with isOn := true }.present false presented

def step (s : TripSwitch) : TripEvent → Option TripSwitch
  | .flipped presented => some ({ s with isOn := !s.isOn }.switchValueChanged presented)
  | .confirmed => s.alert.map fun turnOn =>
      { isOn := turnOn, alert := none, confirmations := s.confirmations + 1 }
  | .cancelled => s.alert.map fun _ => { s with alert := none }

end TripSwitch

namespace SignIn

theorem complete_of_credentials {page : SignInPage} {c : Credentials}
    (h : page.credentials = some c) : c.email ≠ "" ∧ c.password ≠ "" := by
  unfold SignInPage.credentials at h
  cases hemail : page.email with
  | none => simp [hemail] at h
  | some email =>
      cases hpassword : page.password with
      | none => simp [hemail, hpassword] at h
      | some password =>
          simp only [hemail, hpassword] at h
          split_ifs at h with hempty
          rw [Bool.or_eq_true, not_or, String.isEmpty_iff, String.isEmpty_iff] at hempty
          rw [← Option.some.inj h]
          exact hempty

/-- An answer takes its request out of those in flight. -/
theorem perm_eraseIdx {requests : List Credentials} {i : ℕ} {c : Credentials}
    (h : requests[i]? = some c) : requests.Perm (c :: requests.eraseIdx i) := by
  obtain ⟨hi, hc⟩ := List.getElem?_eq_some_iff.mp h
  rw [← hc]
  exact (List.getElem_cons_eraseIdx_perm hi).symm

/-- A request moves from those in flight to those answered. -/
theorem perm_move {sent before after requests : List Credentials} {i : ℕ} {c : Credentials}
    (h : sent.Perm (before ++ after ++ requests)) (hc : requests[i]? = some c) :
    sent.Perm (before ++ [c] ++ after ++ requests.eraseIdx i) ∧
      sent.Perm (before ++ (after ++ [c]) ++ requests.eraseIdx i) := by
  have hmoved := perm_eraseIdx hc
  constructor
  · refine List.perm_iff_count.mpr ?_
    intro d
    have hsent := h.count_eq d
    have hrequests := hmoved.count_eq d
    simp only [List.count_append, List.count_cons, List.count_nil] at hsent hrequests ⊢
    omega
  · refine List.perm_iff_count.mpr ?_
    intro d
    have hsent := h.count_eq d
    have hrequests := hmoved.count_eq d
    simp only [List.count_append, List.count_cons, List.count_nil] at hsent hrequests ⊢
    omega

theorem signedIn_accounted {log : SignInLog} (h : log.Accounted) {request : ℕ} {c : Credentials}
    (hc : log.page.signingIn[request]? = some c) (accepted presented : Bool) {page : SignInPage}
    (hpage : log.page.signedIn request accepted presented = some page) :
    (log.record page (.signedIn request accepted presented)).Accounted := by
  obtain ⟨haccepted, hrejected⟩ := perm_move h.sent hc
  simp only [SignInPage.signedIn, hc, Option.map_some, Option.some.injEq] at hpage
  cases accepted with
  | true =>
      rw [if_pos rfl] at hpage
      subst hpage
      simp only [SignInLog.record, hc, Option.toList_some, if_true]
      refine ⟨haccepted, h.rejected, h.creating, h.complete, ?_⟩
      rw [List.length_append, List.length_singleton, h.opened]
  | false =>
      rw [if_neg Bool.false_ne_true, SignInPage.showCreateAccount] at hpage
      simp only [SignInLog.record, hc, Option.toList_some, Bool.false_eq_true, if_false]
      have hadded := h.rejected.append_right [c]
      split_ifs at hpage ⊢ with hshown
      · subst hpage
        have hnone : log.page.alert = none :=
          Option.isNone_iff_eq_none.mp (Bool.and_eq_true_iff.mp hshown).2
        rw [hnone, Option.toList_none, List.append_nil] at hadded
        exact ⟨hrejected, hadded, h.creating, h.complete, h.opened⟩
      · subst hpage
        refine ⟨hrejected, ?_, h.creating, h.complete, h.opened⟩
        refine hadded.trans (List.perm_iff_count.mpr ?_)
        intro d
        simp only [List.count_append]
        omega

theorem step_accounted (log : SignInLog) (event : SignInEvent) (next : SignInLog)
    (h : log.Accounted) (hstep : log.step event = some next) : next.Accounted := by
  obtain ⟨page, hpage, rfl⟩ := Option.map_eq_some_iff.mp hstep
  cases event with
  | typed email password =>
      cases hpage
      exact ⟨h.sent, h.rejected, h.creating, h.complete, h.opened⟩
  | tapped =>
      cases hpage
      refine ⟨?_, h.rejected, h.creating, ?_, h.opened⟩
      · have hsent := h.sent.append_right log.page.credentials.toList
        rw [List.append_assoc] at hsent
        exact hsent
      · intro c hc
        cases List.mem_append.mp hc with
        | inl hold => exact h.complete c hold
        | inr hnew => exact complete_of_credentials (Option.mem_toList.mp hnew)
  | signedIn request accepted presented =>
      obtain ⟨c, hc, -⟩ := Option.map_eq_some_iff.mp hpage
      exact signedIn_accounted h hc accepted presented hpage
  | continued =>
      obtain ⟨c, hc, rfl⟩ := Option.map_eq_some_iff.mp hpage
      have hrejected := h.rejected
      simp only [SignInLog.record, hc, Option.toList_some] at hrejected ⊢
      refine ⟨h.sent, ?_, ?_, h.complete, h.opened⟩
      · refine hrejected.trans (List.perm_iff_count.mpr ?_)
        intro d
        simp only [List.count_append, Option.toList_none, List.count_nil]
        omega
      · rw [← List.append_assoc]
        exact h.creating.append_right [c]
  | cancelled =>
      obtain ⟨c, hc, rfl⟩ := Option.map_eq_some_iff.mp hpage
      have hrejected := h.rejected
      simp only [SignInLog.record, hc, Option.toList_some] at hrejected ⊢
      refine ⟨h.sent, ?_, h.creating, h.complete, h.opened⟩
      refine hrejected.trans (List.perm_iff_count.mpr ?_)
      intro d
      simp only [List.count_append, Option.toList_none, List.count_nil]
      omega
  | created request accepted =>
      obtain ⟨c, hc, rfl⟩ := Option.map_eq_some_iff.mp hpage
      refine ⟨h.sent, h.rejected, ?_, h.complete, h.opened⟩
      simp only [SignInLog.record, hc, Option.toList_some]
      have hconfirmed : log.confirmed.Perm ([] ++ log.created ++ log.page.creating) := h.creating
      exact (perm_move hconfirmed hc).2

/-- In any order of taps and answers every request is accounted for, the page opens once for
each accepted sign-in, and nothing else opens it. -/
theorem requests_accounted (events : List SignInEvent) :
    Throughout SignInLog.step SignInLog.Accounted {} events := by
  refine throughout_of_step step_accounted ?_
  exact ⟨List.Perm.refl _, List.Perm.refl _, List.Perm.refl _, by simp, rfl⟩

/-- The switch asks for the other position, and is on after an odd number of confirmations. -/
def Confirmed (s : TripSwitch) : Prop :=
  s.isOn = decide (s.confirmations % 2 = 1) ∧ ∀ turnOn, s.alert = some turnOn → turnOn = !s.isOn

theorem flipped_confirmed {s : TripSwitch} (h : Confirmed s) (presented : Bool) :
    Confirmed ({ s with isOn := !s.isOn }.switchValueChanged presented) := by
  obtain ⟨hon, halert⟩ := h
  have hflip : ({ s with isOn := !s.isOn } : TripSwitch).switchValueChanged presented =
      s.present (!s.isOn) presented := by
    cases s with
    | mk isOn alert confirmations =>
        cases isOn with
        | false => rfl
        | true => rfl
  rw [hflip, TripSwitch.present]
  split_ifs
  · refine ⟨hon, ?_⟩
    intro turnOn hturn
    exact (Option.some.inj hturn).symm
  · exact ⟨hon, halert⟩

theorem trip_step_confirmed (s : TripSwitch) (event : TripEvent) (t : TripSwitch)
    (h : Confirmed s) (hstep : s.step event = some t) : Confirmed t := by
  cases event with
  | flipped presented =>
      cases hstep
      exact flipped_confirmed h presented
  | confirmed =>
      obtain ⟨turnOn, hturn, rfl⟩ := Option.map_eq_some_iff.mp hstep
      refine ⟨?_, fun _ halert => nomatch halert⟩
      rw [h.2 turnOn hturn, h.1, ← decide_not]
      refine decide_eq_decide.mpr ?_
      dsimp only
      omega
  | cancelled =>
      obtain ⟨turnOn, -, rfl⟩ := Option.map_eq_some_iff.mp hstep
      exact ⟨h.1, fun _ halert => nomatch halert⟩

/-- Only confirmed questions change the switch, and each of them does. -/
theorem trip_confirmed (events : List TripEvent) :
    Throughout TripSwitch.step Confirmed {} events :=
  throughout_of_step trip_step_confirmed ⟨rfl, fun _ halert => nomatch halert⟩

end SignIn

end YouRoute
