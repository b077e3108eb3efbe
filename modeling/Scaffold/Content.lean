namespace Scaffold

abbrev Content := ByteArray

instance (priority := 2000) : DecidableEq Content := ByteArray.instDecidableEq

end Scaffold
