import DesignCompiler.Text.Case
import DesignCompiler.Text.ClusterTable

namespace DesignCompiler.Text

open ClusterTable

abbrev Cluster := List Char

def isExtending (c : Char) : Bool := 0x300 ≤ c.toNat && member extendingRuns c

def isPrepended (c : Char) : Bool := 0x600 ≤ c.toNat && member prependedRuns c

def isControl (c : Char) : Bool := member controlRuns c

def isPictographic (c : Char) : Bool := 0xA9 ≤ c.toNat && member pictographicRuns c

def zeroWidthJoiner : Char := '\u200D'

/-- Whether a cluster, whose last character comes first, goes on with `next`. -/
def continues (cluster : Cluster) (next : Char) : Bool :=
  match cluster with
  | [] => true
  | last :: before =>
    if last = '\r' && next = '\n' then true
    else if isControl last || isControl next then false
    else
      isExtending next || isPrepended last
        || (last = zeroWidthJoiner && isPictographic next
          && (before.dropWhile isExtending).head?.any isPictographic)

/-- The clusters of `s`, the first of which goes on from `cluster`, whose last character comes first. Syllables of
Hangul and of Indic scripts and pairs of flag letters are left apart, because nothing in them has a case. -/
def clustersFrom (cluster : Cluster) : List Char → List Cluster
  | [] => if cluster.isEmpty then [] else [cluster.reverse]
  | c :: cs =>
    if continues cluster c then clustersFrom (c :: cluster) cs
    else cluster.reverse :: clustersFrom [c] cs

def clusters (s : List Char) : List Cluster := clustersFrom [] s

theorem flatten_clustersFrom (cluster : Cluster) (s : List Char) :
    (clustersFrom cluster s).flatten = cluster.reverse ++ s := by
  induction s generalizing cluster with
  | nil => cases cluster <;> simp [clustersFrom]
  | cons c cs ih =>
    simp only [clustersFrom]
    split <;> simp [ih]

theorem flatten_clusters (s : List Char) : (clusters s).flatten = s := flatten_clustersFrom [] s

namespace Cluster

def isCased (c : Cluster) : Bool := lowerChars c ≠ upperChars c

def isLower (c : Cluster) : Bool := c.isCased && lowerChars c = c

def isUpper (c : Cluster) : Bool := c.isCased && upperChars c = c

def isDigit (c : Cluster) : Bool := c.all Char.isDigit

end Cluster

end DesignCompiler.Text
