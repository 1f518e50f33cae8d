/-!
# The search options

The closed set of option names a query may use, and how each is handled:
copied under a wire name, expanded, turned into charts, and so on. Which of
them a backend takes, and in which order, is the backend's matter.

* `ofName?_name`: every option is found again by its name.
-/
namespace BugQuery

/-- Every option a query can be made of, in the order of the listing. -/
inductive SearchOption where
  | product
  | component
  | componentsFile
  | version
  | bugId
  | shortDesc
  | longDesc
  | bugStatus
  | keywords
  | keywordsType
  | url
  | urlType
  | statusWhiteboard
  | statusWhiteboardType
  | severity
  | priority
  | targetMilestone
  | tags
  | quicksearch
  | savedsearch
  | savedsearchSharerId
  | cc
  | assignedTo
  | reporter
  | qaContact
  | emailType
  | fixedIn
  | blocked
  | dependsOn
  | flag
  | qaWhiteboard
  | develWhiteboard
  | bugAlias
  | booleanQuery
  | booleanType
  | oneline
  | outputFormat
  deriving DecidableEq, Repr

/-- How the value of a copied option is shaped on its way to the wire. -/
inductive Shape where
  /-- passed through as given -/
  | verbatim
  /-- a text counts as a list of one -/
  | list
  /-- every text is a comma list -/
  | commaList
  /-- the text names a file with an entry per line -/
  | file
  /-- free text, matched by words -/
  | longText
  deriving DecidableEq, Repr

/-- What a chart option's entries are written in. -/
inductive ChartForm where
  /-- values alone; the option gives the field -/
  | values
  /-- whole terms: field, operator and value -/
  | terms
  deriving DecidableEq, Repr

/-- Which options a modifier tunes. -/
inductive Modifier where
  /-- how addresses are matched -/
  | matchType
  /-- the operator of value charts -/
  | operator
  deriving DecidableEq, Repr

/-- How returned fields are chosen. -/
inductive OutputChoice where
  /-- a flag for the fields of a one-line report -/
  | oneline
  /-- a format whose placeholders name the fields -/
  | format
  deriving DecidableEq, Repr

/-- The way an option is compiled. -/
inductive Handling where
  | direct (shape : Shape)
  | status
  | email
  | chart (form : ChartForm)
  | modifier (kind : Modifier)
  | output (choice : OutputChoice)
  deriving DecidableEq, Repr

namespace SearchOption

def all : List SearchOption :=
  [product, component, componentsFile, version, bugId, shortDesc, longDesc, bugStatus, keywords,
   keywordsType, url, urlType, statusWhiteboard, statusWhiteboardType, severity, priority,
   targetMilestone, tags, quicksearch, savedsearch, savedsearchSharerId, cc, assignedTo, reporter,
   qaContact, emailType, fixedIn, blocked, dependsOn, flag, qaWhiteboard, develWhiteboard, bugAlias,
   booleanQuery, booleanType, oneline, outputFormat]

/-- The name by which callers give the option. -/
def name : SearchOption → String
  | product => "product"
  | component => "component"
  | componentsFile => "components_file"
  | version => "version"
  | bugId => "bug_id"
  | shortDesc => "short_desc"
  | longDesc => "long_desc"
  | bugStatus => "bug_status"
  | keywords => "keywords"
  | keywordsType => "keywords_type"
  | url => "url"
  | urlType => "url_type"
  | statusWhiteboard => "status_whiteboard"
  | statusWhiteboardType => "status_whiteboard_type"
  | severity => "severity"
  | priority => "priority"
  | targetMilestone => "target_milestone"
  | tags => "tags"
  | quicksearch => "quicksearch"
  | savedsearch => "savedsearch"
  | savedsearchSharerId => "savedsearch_sharer_id"
  | cc => "cc"
  | assignedTo => "assigned_to"
  | reporter => "reporter"
  | qaContact => "qa_contact"
  | emailType => "emailtype"
  | fixedIn => "fixed_in"
  | blocked => "blocked"
  | dependsOn => "dependson"
  | flag => "flag"
  | qaWhiteboard => "qa_whiteboard"
  | develWhiteboard => "devel_whiteboard"
  | bugAlias => "alias"
  | booleanQuery => "boolean_query"
  | booleanType => "booleantype"
  | oneline => "oneline"
  | outputFormat => "outputformat"

def ofName? (name : String) : Option SearchOption := all.find? fun o => o.name = name

def handling : SearchOption → Handling
  | product | component | tags => .direct .list
  | componentsFile => .direct .file
  | bugId => .direct .commaList
  | longDesc => .direct .longText
  | version | shortDesc | keywords | keywordsType | url | urlType | statusWhiteboard
  | statusWhiteboardType | severity | priority | targetMilestone | quicksearch | savedsearch
  | savedsearchSharerId => .direct .verbatim
  | bugStatus => .status
  | cc | assignedTo | reporter | qaContact => .email
  | fixedIn | blocked | dependsOn | flag | qaWhiteboard | develWhiteboard | bugAlias => .chart .values
  | booleanQuery => .chart .terms
  | emailType => .modifier .matchType
  | booleanType => .modifier .operator
  | oneline => .output .oneline
  | outputFormat => .output .format

theorem handling_eq_status {o : SearchOption} : o.handling = .status ↔ o = bugStatus := by
  cases o <;> simp [handling]

theorem handling_eq_operator {o : SearchOption} :
    o.handling = .modifier .operator ↔ o = booleanType := by
  cases o <;> simp [handling]

theorem handling_eq_format {o : SearchOption} :
    o.handling = .output .format ↔ o = outputFormat := by
  cases o <;> simp [handling]

theorem mem_all (o : SearchOption) : o ∈ all := by cases o <;> decide

theorem ofName?_name (o : SearchOption) : ofName? o.name = some o := by
  cases o <;> decide +kernel

theorem name_of_ofName? {name : String} {o : SearchOption} (h : ofName? name = some o) :
    o.name = name := by
  simpa using List.find?_some h

theorem name_injective {o p : SearchOption} (h : o.name = p.name) : o = p :=
  Option.some.inj ((ofName?_name o).symm.trans (h ▸ ofName?_name p))

end SearchOption

end BugQuery
