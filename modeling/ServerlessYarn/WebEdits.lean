/-
  ServerlessYARN model — the edits of the web interface and their messages (`processStructures` and its
  helpers of ui/views/core/operations.py, the views of the services, of the rules and of HDFS,
  `redirect_with_errors`, and templates/functions/alerts.html).

  A form becomes requests to the state database, one after the other.  What goes wrong is put
  into the query of a redirect, from which the next page reads its messages.  The browser and
  the framework that bring the query there are a parameter.

  * `messages_shown`: what the alerts of a page say after a redirect;
  * `edits_answered`: which requests a form makes, and which of those that are refused leave a message.
-/
import ServerlessYarn.Lib.UrlQuery
import ServerlessYarn.Texts

namespace ServerlessYarn

namespace WebEdits

/-! ## The messages of a redirect -/

def errorsName : List Char := "errors".toList
def successName : List Char := "success".toList

/-- The message of a redirect without errors. -/
def successMessage : String := "Requests were successful!"

/-- `errors=`, and the error. -/
def errorField (error : String) : List Char := errorsName ++ '=' :: UrlQuery.quote error.toList

/-- The query that `redirect_with_errors` puts behind the address. -/
def redirectQuery : List String → List Char
  | [] => successName ++ '=' :: successMessage.toList
  | error :: errors => errorField error ++ errors.flatMap fun error => '&' :: errorField error

/-- `DATA_UPLOAD_MAX_NUMBER_FIELDS` -/
def max_number_fields : ℕ := 1000

/-- `request.GET` of the page that a redirect leads to, or that the request is refused. -/
abbrev ReadQuery := List Char → Option (List (List Char × List Char))

/-- What is relied on of the browser and the framework: quoted fields are read as they were, if they are not too
    many; and so is the message without errors, whose blanks the browser escapes. -/
structure ReadsQuery (read : ReadQuery) : Prop where
  fields : ∀ pairs, pairs.length ≤ max_number_fields → read (UrlQuery.render pairs) = some pairs
  refused : ∀ pairs, max_number_fields < pairs.length → read (UrlQuery.render pairs) = none
  success : read (redirectQuery []) = some [(successName, successMessage.toList)]

/-- A message of a page: `{"message": …}`, or a bare text. -/
inductive Message where
  | entry (text : String)
  | bare (text : String)

/-- `{{ error.message }}`: a text has no such attribute, so nothing is printed. -/
def Message.print : Message → String
  | entry text => text
  | bare _ => ""

/-- `get_pending_tasks_messages`, for the tasks that have ended; each is an entry. -/
structure TaskMessages where
  failed : List String
  successful : List String

/-- What the alerts of a page say. -/
structure Alerts where
  errors : List String
  successes : List String
deriving DecidableEq

/-- The messages of a name in the query, as the view passes them on, and those of the tasks. -/
def alertTexts (item : String → Message) (pairs : List (List Char × List Char)) (name : List Char)
    (tasks : List String) : List String :=
  (((UrlQuery.getlist pairs name).map fun text => item (String.ofList text)) ++ tasks.map Message.entry).map Message.print

/-- The alerts of a page. -/
def pageAlerts (item : String → Message) (read : ReadQuery) (tasks : TaskMessages) (query : List Char) :
    Option Alerts :=
  (read query).map fun pairs =>
    ⟨alertTexts item pairs errorsName tasks.failed, alertTexts item pairs successName tasks.successful⟩

/-- `processStructures`, without a form -/
def structuresAlerts : ReadQuery → TaskMessages → List Char → Option Alerts := pageAlerts .entry

/-- `services`, without a form -/
def servicesAlerts : ReadQuery → TaskMessages → List Char → Option Alerts := pageAlerts .bare

/-- `rules`, without a form -/
def rulesAlerts : ReadQuery → TaskMessages → List Char → Option Alerts := pageAlerts .bare

/-- `hdfs`, without a form -/
def hdfsAlerts : ReadQuery → TaskMessages → List Char → Option Alerts := pageAlerts .bare

/-- The elements of a text, for `redirect_with_errors` when it is given one. -/
def characters (error : String) : List String := error.toList.map fun c => String.ofList [c]

/-- What the view of HDFS puts behind the address: it passes the error itself, which is `None` for an operation
    that it does not know. -/
def hdfsRedirect (error : Option String) : Py (List Char) :=
  match error with
  | some error => .ok (redirectQuery (characters error))
  | none => .error .typeError

theorem redirectQuery_cons (error : String) (errors : List String) :
    redirectQuery (error :: errors) =
      UrlQuery.render ((error :: errors).map fun error => (errorsName, error.toList)) := by
  have hname : UrlQuery.quote errorsName = errorsName := rfl
  rw [UrlQuery.render, List.map_map]
  induction errors generalizing error with
  | nil => simp [redirectQuery, errorField, hname]
  | cons error' errors ih =>
    have hrest := ih error'
    rw [redirectQuery, List.map_cons] at hrest
    rw [redirectQuery, List.flatMap_cons, List.map_cons, List.map_cons, List.intercalate_cons_cons, ← hrest]
    simp [errorField, hname]

theorem getlist_errors (errors : List String) :
    (UrlQuery.getlist (errors.map fun error => (errorsName, error.toList)) errorsName).map String.ofList = errors ∧
      UrlQuery.getlist (errors.map fun error => (errorsName, error.toList)) successName = [] := by
  have hne : errorsName ≠ successName := by decide
  induction errors with
  | nil => exact ⟨rfl, rfl⟩
  | cons error errors ih =>
    unfold UrlQuery.getlist at ih ⊢
    simpa [hne] using ih

theorem alertTexts_eq {item : String → Message} {pairs : List (List Char × List Char)} {name : List Char}
    {texts : List String} (h : (UrlQuery.getlist pairs name).map String.ofList = texts) (tasks : List String) :
    alertTexts item pairs name tasks = texts.map (fun text => (item text).print) ++ tasks := by
  subst h
  simp [alertTexts, Message.print, Function.comp_def]

/-- The alerts after a redirect, with what is printed of each message. -/
theorem pageAlerts_redirect {read : ReadQuery} (hread : ReadsQuery read) (item : String → Message)
    (tasks : TaskMessages) (errors : List String) : pageAlerts item read tasks (redirectQuery errors) =
      if max_number_fields < errors.length then none
      else some ⟨errors.map (fun error => (item error).print) ++ tasks.failed,
        (if errors = [] then [(item successMessage).print] else []) ++ tasks.successful⟩ := by
  rw [pageAlerts]
  cases errors with
  | nil =>
    have herrors : (UrlQuery.getlist [(successName, successMessage.toList)] errorsName).map String.ofList = [] := rfl
    have hsuccess : (UrlQuery.getlist [(successName, successMessage.toList)] successName).map String.ofList =
        [successMessage] := by
      simp [UrlQuery.getlist]
    rw [hread.success, Option.map_some, alertTexts_eq herrors, alertTexts_eq hsuccess]
    rfl
  | cons error errors =>
    rw [redirectQuery_cons]
    by_cases hmax : max_number_fields < (error :: errors).length
    · rw [if_pos hmax, hread.refused _ (by rwa [List.length_map])]
      rfl
    · have hnone := (getlist_errors (error :: errors)).2
      rw [if_neg hmax, hread.fields _ (by rw [List.length_map]; omega), Option.map_some,
        alertTexts_eq (getlist_errors (error :: errors)).1,
        alertTexts_eq (show (UrlQuery.getlist _ successName).map String.ofList = [] by rw [hnone]; rfl)]
      rfl

theorem pageAlerts_bare {read : ReadQuery} (hread : ReadsQuery read) (tasks : TaskMessages) (errors : List String) :
    pageAlerts .bare read tasks (redirectQuery errors) =
      if max_number_fields < errors.length then none
      else some ⟨List.replicate errors.length "" ++ tasks.failed,
        (if errors = [] then [""] else []) ++ tasks.successful⟩ := by
  rw [pageAlerts_redirect hread]
  simp only [Message.print, List.map_const']

/-- **What the alerts of a page say after a redirect**, if the query has not too many fields.  On the pages of the
    structures they are the errors as they were, or that there are none; on those of the services and of the rules
    there is one for each error, which says nothing; and on the one of HDFS there is one for each character. -/
theorem messages_shown {read : ReadQuery} (hread : ReadsQuery read) (tasks : TaskMessages) :
    (∀ errors : List String, structuresAlerts read tasks (redirectQuery errors) =
      if max_number_fields < errors.length then none
      else some ⟨errors ++ tasks.failed, (if errors = [] then [successMessage] else []) ++ tasks.successful⟩) ∧
    (∀ errors : List String, servicesAlerts read tasks (redirectQuery errors) =
        (if max_number_fields < errors.length then none
        else some ⟨List.replicate errors.length "" ++ tasks.failed,
          (if errors = [] then [""] else []) ++ tasks.successful⟩) ∧
      rulesAlerts read tasks (redirectQuery errors) = servicesAlerts read tasks (redirectQuery errors)) ∧
    hdfsRedirect none = .error .typeError ∧
    ∀ error : String, (hdfsRedirect (some error)).map (hdfsAlerts read tasks) =
      .ok (if max_number_fields < error.length then none
        else some ⟨List.replicate error.length "" ++ tasks.failed,
          (if error = "" then [""] else []) ++ tasks.successful⟩) := by
  refine ⟨fun errors => ?_, fun errors => ⟨pageAlerts_bare hread tasks errors, rfl⟩, rfl, fun error => ?_⟩
  · rw [structuresAlerts, pageAlerts_redirect hread]
    simp only [Message.print, List.map_id']
  · have hlength : (characters error).length = error.length := by
      rw [characters, List.length_map, String.length_toList]
    have hempty : characters error = [] ↔ error = "" := by simp [characters]
    rw [hdfsRedirect, Except.map, hdfsAlerts, pageAlerts_bare hread, hlength]
    simp only [hempty]

/-- A parser that splits at `&` and at `;`, as the framework does, reads queries so. -/
theorem readsQuery_parseQsl (repair : List UInt8 → List Char) :
    ReadsQuery (UrlQuery.parseQsl repair max_number_fields) where
  fields := fun _ hmax => UrlQuery.parseQsl_render repair hmax (by decide)
  refused := fun _ hmax => UrlQuery.parseQsl_render_of_lt repair hmax
  success := by
    have hascii : successMessage.toList.all UrlQuery.isAscii = true := rfl
    have hbytes : UrlQuery.percentDecode ([] ++ successMessage.toList) = UrlQuery.encode successMessage.toList := rfl
    have hmessage : UrlQuery.unquote repair successMessage.toList = successMessage.toList :=
      ((UrlQuery.unquoteFrom_ascii repair (List.all_eq_true.1 hascii) []).trans (congrArg _ hbytes)).trans
        (UrlQuery.decode_encode repair _)
    have hname : UrlQuery.unquote repair successName = successName := UrlQuery.unquote_quote repair successName
    have hfields : ((redirectQuery []).splitOnP UrlQuery.isSeparator).filter (· ≠ []) =
        [successName ++ '=' :: successMessage.toList] := rfl
    have hfield : UrlQuery.readField repair (successName ++ '=' :: successMessage.toList) =
        (UrlQuery.unquote repair successName, UrlQuery.unquote repair successMessage.toList) := rfl
    have hcount : ¬ max_number_fields < 1 + (redirectQuery []).countP UrlQuery.isSeparator := by decide
    rw [UrlQuery.parseQsl, if_neg hcount, hfields, List.map_singleton, hfield, hname, hmessage]

theorem messages_shown_refused :
    structuresAlerts (UrlQuery.parseQsl (fun _ => []) max_number_fields) ⟨[], []⟩ (redirectQuery ["a & b;", "ñ"]) =
        some ⟨["a & b;", "ñ"], []⟩ ∧
      servicesAlerts (UrlQuery.parseQsl (fun _ => []) max_number_fields) ⟨["c"], []⟩ (redirectQuery ["a & b;"]) =
        some ⟨["", "c"], []⟩ :=
  ⟨(messages_shown (readsQuery_parseQsl _) _).1 _, ((messages_shown (readsQuery_parseQsl _) _).2.1 _).1⟩

/-! ## Requests -/

/-- The body of a request. -/
inductive PutData where
  | value (value : String)
  | event (value event_type : String)
  | values (values : List String)

structure PutRequest where
  url : String
  data : Option PutData

inductive Answer where
  | ok
  | refused (text : String)
  | unreachable

/-- The state database, and the requests that it has been sent. -/
structure World (σ : Type) where
  db : σ
  sent : List (PutRequest × Answer)

abbrev Edit (σ α : Type) := EStateM PyError (World σ) α

/-- The fields of a form, in order. -/
abbrev Post := List (String × String)

namespace Post

def getlist (post : Post) (name : String) : List String := (post.filter (·.1 = name)).map Prod.snd

def has (post : Post) (name : String) : Bool := post.any (·.1 = name)

/-- `request.POST[name]` -/
def get (post : Post) (name : String) : Py String :=
  match (post.getlist name).getLast? with
  | some value => .ok value
  | none => .error (.keyError name)

end Post

section edits
variable {σ : Type} (put : σ → PutRequest → Answer × σ) (lower : String → String)

def ofPy {α : Type} (m : Py α) : Edit σ α :=
  match m with
  | .ok a => pure a
  | .error e => throw e

/-- `web_request`, for a `put` -/
def webRequest (url error_message : String) (data : Option PutData) : Edit σ String := fun w =>
  let (answer, db) := put w.db ⟨url, data⟩
  let w' := ⟨db, w.sent ++ [(⟨url, data⟩, answer)]⟩
  match answer with
  | .ok => .ok "" w'
  | .refused text => .ok (String.join [error_message, ": ", text]) w'
  | .unreachable => .error (.exception url) w'

/-- The errors of a loop. -/
def gather {α : Type} (step : α → Edit σ (List String)) : List α → Edit σ (List String)
  | [] => return []
  | a :: l => do
    let errors ← step a
    let more ← gather step l
    return errors ++ more

/-- `if len(error) > 0: errors.append(error)` -/
def noted (m : Edit σ String) : Edit σ (List String) := do
  let error ← m
  return if error = "" then [] else [error]

/-- `processResourcesFields` -/
def processResourcesFields (url structure_name resource field field_value : String) : Edit σ String :=
  let full_url := String.join [url, structure_name, "/resources/", resource, "/"]
  let error_message := String.join ["Error submitting ", field, " for structure ", structure_name]
  if field = "guard" then
    webRequest put (full_url ++ if field_value = "True" then "guard" else "unguard") error_message none
  else webRequest put (full_url ++ field) error_message (some (.value (lower field_value)))

/-- The fields of a resource that a form has, and the address, by the type of the structure. -/
def resourceFields (base_url structure_type : String) : String × List String :=
  if structure_type = "host" then (base_url ++ "/structure/", ["max"])
  else if structure_type = "user" then (base_url ++ "/user/", ["max", "min"])
  else (base_url ++ "/structure/", ["guard", "max", "min", "weight"])

def formField (i : ℕ) (field : String) : String := String.join ["form-", toString i, "-", field]

/-- `processResources` -/
def processResources (r : IntReader) (base_url : String) (post : Post) : Edit σ (List String) := do
  if ¬ post.has "form-TOTAL_FORMS" then return []
  let total_forms ← ofPy (do readInt r (← post.get "form-TOTAL_FORMS").toList)
  if ¬ 0 < total_forms then return []
  if (← ofPy (post.get (formField 0 "operation"))) ≠ "resources" then return []
  let name ← ofPy (post.get (formField 0 "name"))
  let structure_type ← ofPy (post.get (formField 0 "structure_type"))
  let (url, resources_field_list) := resourceFields base_url structure_type
  gather (fun i => do
    let resource ← ofPy (post.get (formField i "resource"))
    gather (fun field => do
      let field_value ← ofPy (post.get (formField i field))
      if field_value ≠ "" then noted (processResourcesFields put lower url name resource field field_value)
      else return []) resources_field_list) (List.range total_forms.toNat)

/-- One of the two requests of `processLimitsBoundary`. -/
def limitsRequest (url structure_name resource param new_value : String) : Edit σ String :=
  if new_value ≠ "" then
    webRequest put (String.join [url, structure_name, "/limits/", resource, "/", param])
      (String.join ["Error updating ", param, " for structure ", structure_name]) (some (.value (lower new_value)))
  else return ""

/-- `processLimitsBoundary`: each of the two starts with an empty error. -/
def processLimitsBoundary (url structure_name resource : String) (post : Post) : Edit σ String :=
  ["boundary", "boundary_type"].foldlM (fun _ param => do
    limitsRequest put lower url structure_name resource param
      (← ofPy (post.get (String.join [resource, "_", param])))) ""

def limitResources : List String := ["cpu", "mem", "disk_read", "disk_write", "net", "energy"]

/-- `processLimits` -/
def processLimits (base_url : String) (post : Post) : Edit σ (List String) := do
  if post.has "name" && !post.has "operation" then
    let structure_name ← ofPy (post.get "name")
    gather (fun resource =>
      if post.has (resource ++ "_boundary") && post.has (resource ++ "_boundary_type") then
        noted (processLimitsBoundary put lower (base_url ++ "/structure/") structure_name resource post)
      else return []) limitResources
  else return []

/-- `processOperations`: `operate` is the operation that the view has under a name. -/
def processOperations (operate : String → Option (Edit σ (Option String))) (post : Post) : Edit σ (List String) := do
  if post.has "operation" then
    match operate (← ofPy (post.get "operation")) with
    | some operation => noted (return (← operation).getD "")
    | none => return ["Operation not found"]
  else return []

/-- `processStructures`, for a form -/
def processStructures (r : IntReader) (base_url : String) (operate : String → Option (Edit σ (Option String)))
    (post : Post) : Edit σ (List String) := do
  let resources_errors ← processResources put lower r base_url post
  let limits_errors ← processLimits put lower base_url post
  let operation_errors ← processOperations operate post
  return resources_errors ++ limits_errors ++ operation_errors

def multipleChoiceFields : List String :=
  ["guardable_resources", "structures_persisted", "resources_persisted", "structures_refeeded", "generated_metrics",
    "documents_persisted", "resources_balanced", "structures_balanced"]

/-- `v.strip().strip('"')` -/
def choice (value : String) : String := String.ofList (Trim.trim (· = '"') (strip value.toList))

/-- `processServiceConfigPost` -/
def processServiceConfigPost (upper : String → String) (url service_name config_name : String) (post : Post) :
    Edit σ String := do
  let full_url := String.join [url, service_name, "/", upper config_name]
  let error_message := String.join ["Error submiting ", config_name, " for service ", service_name]
  if config_name ∈ multipleChoiceFields then
    webRequest put full_url error_message (some (.values ((post.getlist config_name).map choice)))
  else
    let new_value ← ofPy (post.get config_name)
    if new_value ≠ "" then webRequest put full_url error_message (some (.value (lower new_value)))
    else return ""

/-- `services`, for a form; `service_options` is `SERVICES_OPTIONS`. -/
def services (upper : String → String) (service_options : String → List String) (base_url : String) (post : Post) :
    Edit σ (List String) := do
  if post.has "name" then
    let service_name ← ofPy (post.get "name")
    gather (fun option =>
      noted (processServiceConfigPost put lower upper (base_url ++ "/service/") service_name option post))
      (service_options service_name)
  else return []

/-- `processRulesPost` -/
def processRulesPost (url rule_name field field_put_url : String) (post : Post) : Edit σ String := do
  let new_value ← ofPy (post.get field)
  if new_value ≠ "" then
    let put_field_data :=
      if field_put_url = "events_required" then
        .event new_value (if field = "up_events_required" then "up" else "down")
      else .value new_value
    webRequest put (String.join [url, rule_name, "/", field_put_url])
      (String.join ["Error submitting ", field, " for rule ", rule_name]) (some put_field_data)
  else return ""

/-- The fields of a rule, with what they are called in its address. -/
def rulesFields : List (String × String) :=
  [("amount", "amount"), ("rescale_policy", "policy"), ("up_events_required", "events_required"),
    ("down_events_required", "events_required")]

/-- `rules`, for a form -/
def rules (base_url : String) (post : Post) : Edit σ (List String) := do
  let rule_name ← ofPy (post.get "name")
  gather (fun field =>
    if post.has field.1 then noted (processRulesPost put (base_url ++ "/rule/") rule_name field.1 field.2 post)
    else return []) rulesFields

/-! ## What a form asks for -/

/-- A request with its message.  The answer to the one for a boundary does not count. -/
structure Planned where
  request : PutRequest
  message : String
  counts : Bool

/-- A form is read while its requests are made. -/
inductive Command where
  | send (p : Planned)
  | fail (e : PyError)

/-- One request after the other, until something raises. -/
def runScript : List Command → Edit σ (List String)
  | [] => return []
  | .fail e :: _ => throw e
  | .send p :: script => do
    let error ← webRequest put p.request.url p.message p.request.data
    let errors ← runScript script
    return (if p.counts ∧ error ≠ "" then [error] else []) ++ errors

def withPy {α : Type} (m : Py α) (script : α → List Command) : List Command :=
  match m with
  | .ok a => script a
  | .error e => [.fail e]

def sendUnlessEmpty (value : String) (p : Planned) : List Command := if value ≠ "" then [.send p] else []

def resourcesPlan (url structure_name resource field field_value : String) : Planned :=
  let full_url := String.join [url, structure_name, "/resources/", resource, "/"]
  let message := String.join ["Error submitting ", field, " for structure ", structure_name]
  if field = "guard" then ⟨⟨full_url ++ if field_value = "True" then "guard" else "unguard", none⟩, message, true⟩
  else ⟨⟨full_url ++ field, some (.value (lower field_value))⟩, message, true⟩

def resourcesScript (r : IntReader) (base_url : String) (post : Post) : List Command :=
  if post.has "form-TOTAL_FORMS" then
    withPy (do readInt r (← post.get "form-TOTAL_FORMS").toList) fun total_forms =>
      if 0 < total_forms then
        withPy (post.get (formField 0 "operation")) fun operation =>
          if operation = "resources" then
            withPy (post.get (formField 0 "name")) fun name =>
              withPy (post.get (formField 0 "structure_type")) fun structure_type =>
                (List.range total_forms.toNat).flatMap fun i =>
                  withPy (post.get (formField i "resource")) fun resource =>
                    (resourceFields base_url structure_type).2.flatMap fun field =>
                      withPy (post.get (formField i field)) fun value =>
                        sendUnlessEmpty value (resourcesPlan lower (resourceFields base_url structure_type).1 name
                          resource field value)
          else []
      else []
  else []

def limitsPlan (url structure_name resource param value : String) : Planned where
  request := ⟨String.join [url, structure_name, "/limits/", resource, "/", param], some (.value (lower value))⟩
  message := String.join ["Error updating ", param, " for structure ", structure_name]
  counts := param = "boundary_type"

def boundaryScript (url structure_name resource : String) (post : Post) : List Command :=
  ["boundary", "boundary_type"].flatMap fun param =>
    withPy (post.get (String.join [resource, "_", param])) fun value =>
      sendUnlessEmpty value (limitsPlan lower url structure_name resource param value)

def limitsScript (base_url : String) (post : Post) : List Command :=
  if post.has "name" && !post.has "operation" then
    withPy (post.get "name") fun structure_name => limitResources.flatMap fun resource =>
      if post.has (resource ++ "_boundary") && post.has (resource ++ "_boundary_type") then
        boundaryScript lower (base_url ++ "/structure/") structure_name resource post
      else []
  else []

def servicesScript (upper : String → String) (service_options : String → List String) (base_url : String)
    (post : Post) : List Command :=
  if post.has "name" then
    withPy (post.get "name") fun service_name => (service_options service_name).flatMap fun option =>
      let url := String.join [base_url ++ "/service/", service_name, "/", upper option]
      let message := String.join ["Error submiting ", option, " for service ", service_name]
      if option ∈ multipleChoiceFields then
        [.send ⟨⟨url, some (.values ((post.getlist option).map choice))⟩, message, true⟩]
      else withPy (post.get option) fun value =>
        sendUnlessEmpty value ⟨⟨url, some (.value (lower value))⟩, message, true⟩
  else []

def rulesScript (base_url : String) (post : Post) : List Command :=
  withPy (post.get "name") fun rule_name => rulesFields.flatMap fun field =>
    if post.has field.1 then
      withPy (post.get field.1) fun value => sendUnlessEmpty value
        ⟨⟨String.join [base_url ++ "/rule/", rule_name, "/", field.2],
          some (if field.2 = "events_required" then
            .event value (if field.1 = "up_events_required" then "up" else "down") else .value value)⟩,
          String.join ["Error submitting ", field.1, " for rule ", rule_name], true⟩
    else []

/-- What an answer says about a request. -/
def Answer.refusal (message : String) : Answer → Option String
  | ok => none
  | refused text => some (String.join [message, ": ", text])
  | unreachable => none

/-- The messages of the requests that have been answered. -/
def reports (done : List (Planned × Answer)) : List String :=
  done.filterMap fun e => if e.1.counts then e.2.refusal e.1.message else none

/-- The database answers one request after the other. -/
inductive Answered : σ → List (Planned × Answer) → σ → Prop
  | nil (db : σ) : Answered db [] db
  | cons {db db' db'' : σ} {p : Planned} {answer : Answer} {done : List (Planned × Answer)}
      (hput : put db p.request = (answer, db')) (hdone : Answered db' done db'') :
      Answered db ((p, answer) :: done) db''

def Reached (done : List (Planned × Answer)) : Prop := ∀ e ∈ done, e.2 ≠ .unreachable

/-- The requests of a script have all been made. -/
structure Finishes (script : List Command) (w : World σ) (errors : List String) (w' : World σ)
    (done : List (Planned × Answer)) : Prop where
  answered : Answered put w.db done w'.db
  sent : w'.sent = w.sent ++ done.map fun e => (e.1.request, e.2)
  all : script = done.map fun e => .send e.1
  reached : Reached done
  errors_eq : errors = reports done

/-- A script has stopped at a field that is missing, or at a request that has not been answered. -/
structure Breaks (script : List Command) (w : World σ) (e : PyError) (w' : World σ)
    (done : List (Planned × Answer)) : Prop where
  answered : Answered put w.db done w'.db
  sent : w'.sent = w.sent ++ done.map fun e => (e.1.request, e.2)
  stopped : (Reached done ∧ ∃ rest, script = (done.map fun e => .send e.1) ++ .fail e :: rest) ∨
    ∃ before p rest, done = before ++ [(p, .unreachable)] ∧ Reached before ∧ e = .exception p.request.url ∧
      script = (done.map fun e => .send e.1) ++ rest

/-! ## The code makes these requests -/

theorem runScript_append (script script' : List Command) : runScript put (script ++ script') = (do
    let errors ← runScript put script
    let more ← runScript put script'
    return errors ++ more) := by
  induction script with
  | nil => simp [runScript]
  | cons command script ih =>
    cases command with
    | fail e => rfl
    | send p =>
      rw [List.cons_append, runScript, runScript, ih]
      simp only [bind_assoc, pure_bind, List.append_assoc]

theorem runScript_withPy {α : Type} (m : Py α) (script : α → List Command) :
    runScript put (withPy m script) = (do runScript put (script (← ofPy m))) := by
  cases m with
  | error e => rfl
  | ok a => simp [withPy, ofPy]

theorem gather_eq {α : Type} {step : α → Edit σ (List String)} {script : α → List Command}
    (h : ∀ a, step a = runScript put (script a)) (l : List α) :
    gather step l = runScript put (l.flatMap script) := by
  induction l with
  | nil => rfl
  | cons a l ih => rw [gather, List.flatMap_cons, runScript_append, h, ih]

/-- A request whose error is noted. -/
theorem noted_webRequest (url message : String) (data : Option PutData) :
    noted (webRequest put url message data) = runScript put [.send ⟨⟨url, data⟩, message, true⟩] := by
  simp [noted, runScript]

theorem runScript_sendUnlessEmpty (value : String) (p : Planned) : runScript put (sendUnlessEmpty value p) =
    if value ≠ "" then runScript put [.send p] else return [] := by
  unfold sendUnlessEmpty
  split_ifs <;> rfl

theorem processResources_eq (r : IntReader) (base_url : String) (post : Post) :
    processResources put lower r base_url post = runScript put (resourcesScript lower r base_url post) := by
  have hfield : ∀ url name resource field value,
      (if value ≠ "" then noted (processResourcesFields put lower url name resource field value) else return []) =
        runScript put (sendUnlessEmpty value (resourcesPlan lower url name resource field value)) := by
    intro url name resource field value
    rw [runScript_sendUnlessEmpty]
    split_ifs with hvalue
    · unfold processResourcesFields resourcesPlan
      dsimp only
      split_ifs <;> exact noted_webRequest put _ _ _
    · rfl
  unfold processResources resourcesScript
  by_cases hhas : post.has "form-TOTAL_FORMS" = true
  · rw [if_neg (not_not.2 hhas), if_pos hhas, runScript_withPy]
    refine congrArg _ (funext fun total_forms => ?_)
    by_cases htotal : 0 < total_forms
    · rw [if_neg (not_not.2 htotal), if_pos htotal, runScript_withPy]
      refine congrArg _ (funext fun operation => ?_)
      by_cases hoperation : operation = "resources"
      · rw [if_neg (not_not.2 hoperation), if_pos hoperation, runScript_withPy]
        refine congrArg _ (funext fun name => ?_)
        rw [runScript_withPy]
        refine congrArg _ (funext fun structure_type => ?_)
        refine gather_eq put (fun i => ?_) _
        rw [runScript_withPy]
        refine congrArg _ (funext fun resource => ?_)
        refine gather_eq put (fun field => ?_) _
        rw [runScript_withPy]
        exact congrArg _ (funext fun value => hfield _ _ _ _ _)
      · rw [if_pos hoperation, if_neg hoperation]
        rfl
    · rw [if_pos htotal, if_neg htotal]
      rfl
  · rw [if_pos hhas, if_neg hhas]
    rfl

theorem runScript_limitsPlan (url structure_name resource param value : String) :
    runScript put (sendUnlessEmpty value (limitsPlan lower url structure_name resource param value)) = (do
      let error ← limitsRequest put lower url structure_name resource param value
      return if param = "boundary_type" ∧ error ≠ "" then [error] else []) := by
  rw [runScript_sendUnlessEmpty, limitsRequest]
  split_ifs with hvalue
  · simp [runScript, limitsPlan]
  · simp

/-- The error of a boundary is overwritten by the one of its type. -/
theorem noted_processLimitsBoundary (url structure_name resource : String) (post : Post) :
    noted (processLimitsBoundary put lower url structure_name resource post) =
      runScript put (boundaryScript lower url structure_name resource post) := by
  simp only [boundaryScript, List.flatMap_cons, List.flatMap_nil, List.append_nil, runScript_append,
    runScript_withPy, runScript_limitsPlan]
  simp [processLimitsBoundary, noted, List.foldlM_cons, List.foldlM_nil]

theorem processLimits_eq (base_url : String) (post : Post) :
    processLimits put lower base_url post = runScript put (limitsScript lower base_url post) := by
  unfold processLimits limitsScript
  split_ifs with hname
  · rw [runScript_withPy]
    refine congrArg _ (funext fun structure_name => gather_eq put (fun resource => ?_) _)
    split_ifs with hboundary
    · exact noted_processLimitsBoundary put lower _ _ _ _
    · rfl
  · rfl

theorem services_eq (upper : String → String) (service_options : String → List String) (base_url : String)
    (post : Post) : services put lower upper service_options base_url post =
      runScript put (servicesScript lower upper service_options base_url post) := by
  unfold services servicesScript
  split_ifs with hname
  · rw [runScript_withPy]
    refine congrArg _ (funext fun service_name => gather_eq put (fun option => ?_) _)
    unfold processServiceConfigPost
    split_ifs with hchoice
    · exact noted_webRequest put _ _ _
    · rw [runScript_withPy]
      simp only [noted, bind_assoc]
      refine congrArg _ (funext fun value => ?_)
      rw [runScript_sendUnlessEmpty]
      split_ifs with hvalue
      · exact noted_webRequest put _ _ _
      · rfl
  · rfl

theorem rules_eq (base_url : String) (post : Post) :
    rules put base_url post = runScript put (rulesScript base_url post) := by
  unfold rules rulesScript
  rw [runScript_withPy]
  refine congrArg _ (funext fun rule_name => gather_eq put (fun field => ?_) _)
  by_cases hfield : post.has field.1 = true
  · rw [if_pos hfield, if_pos hfield, runScript_withPy]
    simp only [noted, processRulesPost, bind_assoc]
    refine congrArg _ (funext fun value => ?_)
    rw [runScript_sendUnlessEmpty]
    by_cases hvalue : value ≠ ""
    · rw [if_pos hvalue, if_pos hvalue]
      exact noted_webRequest put _ _ _
    · rw [if_neg hvalue, if_neg hvalue]
      rfl
  · rw [if_neg hfield, if_neg hfield]
    rfl

/-! ## What becomes of the requests -/

/-- The database after a request. -/
def after (w : World σ) (p : Planned) (answer : Answer) (db : σ) : World σ :=
  ⟨db, w.sent ++ [(p.request, answer)]⟩

variable {put}

/-- A request that is answered, and the rest of the script. -/
theorem runScript_send {p : Planned} {script : List Command} {w : World σ} {answer : Answer} {db : σ}
    (hput : put w.db p.request = (answer, db)) (hreached : answer ≠ .unreachable) :
    runScript put (.send p :: script) w =
      (do return reports [(p, answer)] ++ (← runScript put script)) (after w p answer db) := by
  have hrequest : webRequest put p.request.url p.message p.request.data w =
      .ok ((answer.refusal p.message).getD "") (after w p answer db) := by
    unfold webRequest
    rw [hput]
    cases answer with
    | ok => rfl
    | refused text => rfl
    | unreachable => exact absurd rfl hreached
  have hreports : (if p.counts ∧ (answer.refusal p.message).getD "" ≠ "" then [(answer.refusal p.message).getD ""]
      else []) = reports [(p, answer)] := by
    cases answer with
    | ok => simp [reports, Answer.refusal]
    | refused text => cases hcounts : p.counts <;> simp [reports, Answer.refusal, hcounts]
    | unreachable => exact absurd rfl hreached
  rw [runScript, ← hreports]
  change EStateM.bind _ _ w = _
  rw [EStateM.bind, hrequest]

theorem runScript_unreachable {p : Planned} {script : List Command} {w : World σ} {db : σ}
    (hput : put w.db p.request = (.unreachable, db)) :
    runScript put (.send p :: script) w = .error (.exception p.request.url) (after w p .unreachable db) := by
  have hrequest : webRequest put p.request.url p.message p.request.data w =
      .error (.exception p.request.url) (after w p .unreachable db) := by
    unfold webRequest
    rw [hput]
    rfl
  rw [runScript]
  change EStateM.bind _ _ w = _
  rw [EStateM.bind, hrequest]

theorem Finishes.cons {p : Planned} {script : List Command} {w w' : World σ} {answer : Answer} {db : σ}
    (hput : put w.db p.request = (answer, db)) (hreached : answer ≠ .unreachable) {errors : List String}
    {done : List (Planned × Answer)} (h : Finishes put script (after w p answer db) errors w' done) :
    Finishes put (.send p :: script) w (reports [(p, answer)] ++ errors) w' ((p, answer) :: done) where
  answered := .cons hput h.answered
  sent := by rw [h.sent, after, List.append_assoc]; rfl
  all := by rw [h.all, List.map_cons]
  reached := List.forall_mem_cons.2 ⟨hreached, h.reached⟩
  errors_eq := by rw [h.errors_eq, reports, reports, reports, ← List.filterMap_append]; rfl

theorem Breaks.cons {p : Planned} {script : List Command} {w w' : World σ} {answer : Answer} {db : σ}
    (hput : put w.db p.request = (answer, db)) (hreached : answer ≠ .unreachable) {e : PyError}
    {done : List (Planned × Answer)} (h : Breaks put script (after w p answer db) e w' done) :
    Breaks put (.send p :: script) w e w' ((p, answer) :: done) where
  answered := .cons hput h.answered
  sent := by rw [h.sent, after, List.append_assoc]; rfl
  stopped := by
    rcases h.stopped with ⟨hdone, rest, rfl⟩ | ⟨before, p', rest, rfl, hbefore, rfl, rfl⟩
    · exact Or.inl ⟨List.forall_mem_cons.2 ⟨hreached, hdone⟩, rest, rfl⟩
    · exact Or.inr ⟨(p, answer) :: before, p', rest, rfl, List.forall_mem_cons.2 ⟨hreached, hbefore⟩, rfl, rfl⟩

/-- A script makes its requests in order, until something raises. -/
theorem finishes_or_breaks (script : List Command) (w : World σ) :
    (∀ errors w', runScript put script w = .ok errors w' → ∃ done, Finishes put script w errors w' done) ∧
    ∀ e w', runScript put script w = .error e w' → ∃ done, Breaks put script w e w' done := by
  induction script generalizing w with
  | nil =>
    refine ⟨fun errors w' h => ?_, fun e w' h => (by cases h)⟩
    cases h
    exact ⟨[], .nil _, (List.append_nil _).symm, rfl, fun _ he => absurd he List.not_mem_nil, rfl⟩
  | cons command script ih =>
    cases command with
    | fail e =>
      refine ⟨fun errors w' h => (by cases h), fun e' w' h => ?_⟩
      cases h
      exact ⟨[], .nil _, (List.append_nil _).symm,
        Or.inl ⟨fun _ he => absurd he List.not_mem_nil, script, rfl⟩⟩
    | send p =>
      obtain ⟨⟨answer, db⟩, hput⟩ : ∃ r, put w.db p.request = r := ⟨_, rfl⟩
      by_cases hreached : answer = .unreachable
      · subst hreached
        rw [runScript_unreachable hput]
        refine ⟨fun errors w' h => (by cases h), fun e w' h => ?_⟩
        cases h
        exact ⟨[(p, .unreachable)], .cons hput (.nil _), rfl,
          Or.inr ⟨[], p, script, rfl, fun _ he => absurd he List.not_mem_nil, rfl, rfl⟩⟩
      · have hih := ih (after w p answer db)
        have hrun : runScript put (.send p :: script) w =
            EStateM.bind (runScript put script) (fun errors => pure (reports [(p, answer)] ++ errors))
              (after w p answer db) := runScript_send hput hreached
        rw [hrun, EStateM.bind]
        cases hrest : runScript put script (after w p answer db) with
        | ok errors w' =>
          refine ⟨fun errors' w'' h => ?_, fun e w'' h => (by cases h)⟩
          cases h
          obtain ⟨done, hdone⟩ := hih.1 errors w' hrest
          exact ⟨_, hdone.cons hput hreached⟩
        | error e w' =>
          refine ⟨fun errors' w'' h => (by cases h), fun e' w'' h => ?_⟩
          cases h
          obtain ⟨done, hdone⟩ := hih.2 e w' hrest
          exact ⟨_, hdone.cons hput hreached⟩

theorem reports_eq_nil_iff {done : List (Planned × Answer)} (hreached : Reached done) :
    reports done = [] ↔ ∀ e ∈ done, e.1.counts = true → e.2 = .ok := by
  rw [reports, List.filterMap_eq_nil_iff]
  refine forall₂_congr fun e he => ?_
  have hanswer := hreached e he
  cases hcounts : e.1.counts with
  | false => simp
  | true => cases hrefused : e.2 <;> simp_all [Answer.refusal]

/-- **The forms of the web interface.**  Each makes the requests of its script in order, until a field is missing or
    the database cannot be reached; the operation of a form comes last.  When all are made, the messages are those of
    the requests that were refused, except the ones for a boundary, so that success is reported iff the others were
    accepted. -/
theorem edits_answered (r : IntReader) (base_url : String) (operate : String → Option (Edit σ (Option String)))
    (upper : String → String) (service_options : String → List String) (post : Post) :
    (processStructures put lower r base_url operate post = (do
      let errors ← runScript put (resourcesScript lower r base_url post ++ limitsScript lower base_url post)
      let operation_errors ← processOperations operate post
      return errors ++ operation_errors)) ∧
    services put lower upper service_options base_url post =
      runScript put (servicesScript lower upper service_options base_url post) ∧
    rules put base_url post = runScript put (rulesScript base_url post) ∧
    ∀ (script : List Command) (w : World σ),
      (∀ e w', runScript put script w = .error e w' → ∃ done, Breaks put script w e w' done) ∧
      ∀ errors w', runScript put script w = .ok errors w' → ∃ done, Finishes put script w errors w' done ∧
        (errors = [] ↔ ∀ e ∈ done, e.1.counts = true → e.2 = .ok) := by
  refine ⟨?_, services_eq put lower upper service_options base_url post, rules_eq put base_url post,
    fun script w => ?_⟩
  · rw [runScript_append, ← processResources_eq, ← processLimits_eq, processStructures]
    simp only [bind_assoc, pure_bind]
  · refine ⟨(finishes_or_breaks script w).2, fun errors w' h => ?_⟩
    obtain ⟨done, hdone⟩ := (finishes_or_breaks script w).1 errors w' h
    exact ⟨done, hdone, by rw [hdone.errors_eq, reports_eq_nil_iff hdone.reached]⟩

end edits

end WebEdits

end ServerlessYarn
