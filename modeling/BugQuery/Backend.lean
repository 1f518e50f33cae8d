import BugQuery.FieldTable
import BugQuery.SearchOption
import BugQuery.Status

/-!
# Backends

Three generations of the search interface. They differ in the options they
take and the order in which these are compiled, in the wire names of fields,
in how addresses are written, and in how returned fields are named.

* `ofExactName?_eq_some`: a backend is found by its name and its aliases.
-/
namespace BugQuery

inductive Backend where
  | genericV3
  | genericV4
  | extendedRolesV4
  deriving DecidableEq, Repr

/-- How the address of a role is written. -/
inductive EmailStyle where
  /-- under the name of its role -/
  | plain
  /-- under a running number, with its match type and its role beside it -/
  | indexedRoles
  deriving DecidableEq, Repr

namespace Backend

def all : List Backend := [genericV3, genericV4, extendedRolesV4]

def name : Backend → String
  | genericV3 => "generic-v3"
  | genericV4 => "generic-v4"
  | extendedRolesV4 => "extended-roles-v4"

/-- Other names of the backend. -/
def aliases : Backend → List String
  | genericV3 => ["bugzilla3", "bz3"]
  | genericV4 => ["bugzilla4", "bz4"]
  | extendedRolesV4 => ["rhbugzilla", "rhbz4"]

/-- The backend with exactly this name or alias. -/
def ofExactName? (name : String) : Option Backend :=
  all.find? fun b => decide (name ∈ b.name :: b.aliases)

/-- The backend with this name or alias, in any letter case. Every name is ASCII, and
no other character becomes one of theirs in lower case. -/
def ofName? (name : String) : Option Backend :=
  ofExactName? (String.ofList (name.toList.map Char.toLower))

/-- No two backends share a name or an alias. -/
theorem ofExactName?_eq_some {name : String} {b : Backend} :
    ofExactName? name = some b ↔ name ∈ b.name :: b.aliases := by
  constructor
  · intro h
    have hfound := List.find?_some h
    exact of_decide_eq_true hfound
  · intro h
    have hall : ∀ b : Backend, ∀ n ∈ b.name :: b.aliases, ofExactName? n = some b := by
      intro b
      cases b <;> decide +kernel
    exact hall b name h

/-! ## Options -/

def plainOrder : List SearchOption :=
  [.product, .component, .componentsFile, .version, .bugId, .shortDesc, .longDesc, .bugStatus,
   .keywords, .keywordsType, .url, .urlType, .statusWhiteboard, .statusWhiteboardType, .severity,
   .priority, .targetMilestone, .tags, .quicksearch, .savedsearch, .savedsearchSharerId, .cc,
   .assignedTo, .reporter, .qaContact, .oneline, .outputFormat]

/-- Modifiers come before the options they tune, and charts are numbered in this order. -/
def extendedOrder : List SearchOption :=
  [.product, .component, .componentsFile, .version, .bugId, .shortDesc, .longDesc, .bugStatus,
   .keywords, .keywordsType, .url, .urlType, .statusWhiteboard, .statusWhiteboardType, .severity,
   .priority, .targetMilestone, .tags, .quicksearch, .savedsearch, .savedsearchSharerId,
   .emailType, .cc, .assignedTo, .reporter, .qaContact, .booleanType, .fixedIn, .blocked,
   .dependsOn, .flag, .qaWhiteboard, .develWhiteboard, .bugAlias, .booleanQuery, .oneline,
   .outputFormat]

/-- The options a backend takes, in the order in which they are compiled. -/
def order : Backend → List SearchOption
  | genericV3 | genericV4 => plainOrder
  | extendedRolesV4 => extendedOrder

def supports (b : Backend) (o : SearchOption) : Bool := b.order.contains o

/-- Whether the backend takes an option of this name. -/
def supportsName (b : Backend) (name : String) : Bool :=
  (SearchOption.ofName? name).any b.supports

def emailStyle : Backend → EmailStyle
  | genericV3 | genericV4 => .plain
  | extendedRolesV4 => .indexedRoles

/-! ## Names -/

def plainFields : List (String × String) :=
  [("product", "product"),
   ("component", "component"),
   ("components_file", "component"),
   ("version", "version"),
   ("bug_id", "id"),
   ("short_desc", "short_desc"),
   ("long_desc", "longdesc"),
   ("bug_status", "bug_status"),
   ("keywords", "keywords"),
   ("keywords_type", "keywords_type"),
   ("url", "bug_file_loc"),
   ("url_type", "bug_file_loc_type"),
   ("status_whiteboard", "status_whiteboard"),
   ("status_whiteboard_type", "status_whiteboard_type"),
   ("severity", "bug_severity"),
   ("priority", "priority"),
   ("target_milestone", "target_milestone"),
   ("tags", "tag"),
   ("quicksearch", "quicksearch"),
   ("savedsearch", "savedsearch"),
   ("savedsearch_sharer_id", "sharer_id"),
   ("cc", "cc"),
   ("assigned_to", "assigned_to"),
   ("reporter", "reporter"),
   ("qa_contact", "qa_contact")]

def chartFields : List (String × String) :=
  [("fixed_in", "cf_fixed_in"),
   ("blocked", "blocked"),
   ("dependson", "dependson"),
   ("flag", "flagtypes.name"),
   ("qa_whiteboard", "cf_qa_whiteboard"),
   ("devel_whiteboard", "cf_devel_whiteboard"),
   ("alias", "alias")]

/-- Wire names of the options. -/
def fields : Backend → FieldTable
  | genericV3 | genericV4 => ⟨[plainFields]⟩
  | extendedRolesV4 => ⟨[plainFields, chartFields]⟩

/-- Older names of returned fields and those of version 4. -/
def version4Aliases : List (String × String) :=
  [("bug_id", "id"),
   ("short_desc", "summary"),
   ("comment", "description"),
   ("rep_platform", "platform"),
   ("bug_severity", "severity"),
   ("bug_status", "status"),
   ("blockedby", "blocks"),
   ("blocked", "blocks"),
   ("dependson", "depends_on"),
   ("reporter", "creator"),
   ("bug_file_loc", "url"),
   ("dupe_id", "dupe_of"),
   ("longdescs", "comments"),
   ("opendate", "creation_time"),
   ("creation_ts", "creation_time"),
   ("status_whiteboard", "whiteboard"),
   ("last_changed", "last_change_time")]

/-- Names of returned fields; `none` where the backend cannot choose the returned fields. -/
def outputFields : Backend → Option FieldTable
  | genericV3 => none
  | genericV4 | extendedRolesV4 => some ⟨[version4Aliases]⟩

/-- The fields that are returned unless options say otherwise. -/
def defaultIncludeFields (_ : Backend) : List String :=
  ["bug_id", "bug_status", "assigned_to", "short_desc"]

def statuses (_ : Backend) : StatusTable := .standard

end Backend

/-- The fields of a one-line report. -/
def onelineIncludeFields : List String :=
  ["bug_id", "bug_status", "assigned_to", "component", "target_milestone", "short_desc", "flags",
   "keywords", "blockedby"]

end BugQuery
