/-!
# The vocabulary of questions

Questions are understood by their words alone. Four tables name the words, in English and in
Chinese: those that ask for a path, for neighbors or for a subgraph, those that mention a type of
relation, and those that mean nothing by themselves.

An English word stands for itself as a token; a Chinese phrase is looked for anywhere in the text,
because Chinese is written without blanks between words. `GraphReasoner.Query.isAscii` tells the two
apart.
-/

namespace GraphReasoner.Query

/-- Whether every character of a text is ASCII. -/
def isAscii (text : List Char) : Bool :=
  text.all fun c => c.toNat < 128

/-- Words that ask for paths. -/
def pathWords : List String :=
  ["path", "paths", "between", "relation", "relationship", "connect", "connected", "connects",
    "link", "linked", "links", "路径", "关系", "联系", "之间", "如何联系"]

/-- Words that ask for neighbors. -/
def neighborWords : List String :=
  ["neighbor", "neighbors", "neighbour", "neighbours", "around", "nearby", "adjacent", "related",
    "similar", "相关", "相邻", "周围", "附近", "相似", "类似"]

/-- Words that ask for a subgraph. -/
def subgraphWords : List String :=
  ["subgraph", "region", "area", "scope", "domain", "local", "子图", "局部", "区域", "范围", "领域"]

/-- Types of relations with the phrases that mention them. -/
def relationPhrases : List (String × List String) :=
  [("is_a", ["is a", "type of", "kind of", "是", "属于", "类型是", "分类为"]),
    ("part_of", ["part of", "component of", "包含", "组成部分", "构成"]),
    ("related_to", ["related to", "associated with", "关联", "连接", "链接"]),
    ("causes", ["causes", "leads to", "results in", "导致", "引起", "造成", "产生"]),
    ("used_for", ["used for", "用于", "用途是", "应用于", "服务于"]),
    ("located_in", ["located in", "situated in", "位于", "处于", "坐落于"]),
    ("time_of", ["happened at", "occurs during", "发生于", "时间是", "日期是", "期间"]),
    ("has_property",
      ["property of", "characteristic of", "特征是", "属性是", "特点是", "性质是"])]

/-- Words that mean nothing by themselves. -/
def emptyWords : List String :=
  ["a", "an", "the", "and", "or", "of", "to", "in", "on", "at", "for", "with", "from", "by", "is",
    "are", "was", "be", "what", "which", "who", "how", "find", "show", "list", "get", "me", "all",
    "about", "tell", "give", "any", "there", "does", "do", "that", "this", "的", "和", "与", "在",
    "是", "及"]

/-- Words that do not count when two questions are compared. -/
def uncountedWords : List String :=
  ["的", "是", "在", "与", "和", "及"]

end GraphReasoner.Query
