import IronDirectory.Defs.Naming.Registry

namespace IronDirectory.Naming

open Base

namespace Key

def partitionRoot (pid : PartitionId) : Str := "/iron/" ++ pid.str ++ ['/']

def treeRoot (pid : PartitionId) : Str := "/iron/" ++ pid.str ++ "/tree/"

def entryKey (pid : PartitionId) (dn : Dn) : Str :=
  treeRoot pid ++ Str.join '/' dn.reversedComponents

def subtreePrefix (pid : PartitionId) (dn : Dn) : Str := entryKey pid dn ++ ['/']

def escapeSegmentChar (c : Char) : Str :=
  if c = '%' then "%25" else if c = '/' then "%2F" else [c]

def escapeSegment (s : Str) : Str := s.flatMap escapeSegmentChar

def indexRoot (pid : PartitionId) : Str := "/iron/" ++ pid.str ++ "/idx/"

def indexPrefix (pid : PartitionId) (attr value : Str) : Str :=
  "/iron/" ++ pid.str ++ "/idx/" ++ escapeSegment attr.asciiLower ++ '/' ::
    escapeSegment value ++ ['/']

def indexKey (pid : PartitionId) (attr value : Str) (dn : Dn) : Str :=
  "/iron/" ++ pid.str ++ "/idx/" ++ escapeSegment attr.asciiLower ++ '/' ::
    escapeSegment value ++ '/' :: escapeSegment dn.display

end Key

end IronDirectory.Naming
