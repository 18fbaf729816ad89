set_option autoImplicit false

namespace Stencil.Pattern.Table

/-- Names of each script and its code points, as gaps and lengths in base 36. -/
def scripts : List (String × String) := [
  ("adlam adlm", "FDTcC34941"),
  ("ahom", "CYI0q2e4m"),
  ("anatolianhieroglyphs hluw", "DKQ0Q6"),
  ("arabic arab",
    "BQo4151d121v19bp1Cz1xC8BbGou115C21sCOH4D6gK22C72Bh70wfD441DqEFfuBv2Bj3CIZs31q11102019131010604010101211102010*311
    102316131310191g52141gBg1"),
  ("armenian armn", "BKxB12Bd22CPDv4"),
  ("avestan avst", "CVAoBh36"),
  ("balinese bali", "HK0C41Bd"),
  ("bamum bamu", "BTOwCfCAUoPs"),
  ("bassavah bass", "DVG0t25"),
  ("batak batk", "HPcBf83"),
  ("bengali beng", "CPk317212l1610332821238041142o"),
  ("bhaiksuki bhks", "CZRk81B81das"),
  ("bopomofo bopo", "Uq1MPtB6D4v"),
  ("brahmi brah", "CWK8C54z90"),
  ("braille brai", "KYgH3"),
  ("buginese bugi", "HCwr21"),
  ("buhid buhd", "GJcj"),
  ("canadianaboriginal cans", "FM8RrPkBxCSMqf"),
  ("carian cari", "CST4Bc"),
  ("caucasianalbanian aghb", "CTLcBfb0"),
  ("chakma cakm", "CWRcBg1h"),
  ("cham", "BUMwBi9d2923"),
  ("cherokee cher", "FJkCd25BPKyC7"),
  ("chorasmian chrs", "CWI0r"),
  ("common zyyy",
    "0Bsq5qBa1e14n0v0MhB2542jD80906010Rp060e030w0Ec0Oc0Dl1BIh0L93I20BQ72Bz1Fn110BI50d073151220Vhb2Ce1a3a1ehwBrB112251q
    1gB524ShmalZrH4Rf2v1CwO8ClL6k101of743Cj130Ci1E3fwB190BcBrvC8Bb0CgEnHB4BrYIwxCu2El9Gs0Eg0Kz0e1WJu1Fs9my1i13E301vq5q
    aa0B91Bs616a4H624B838C8cBfB8GcqBYU43EF8Gx6M3EcD7BoGtaB22Bp3g817t4BoFxjcjcCe9oDrCc1By112021231b10161Bs1327161r13141
    0361Jf2I32BdFPdBvC4BoTmB74Crce2e1e1B0aEtBkp11dB74871e5EaBBb4g3c3Da4Cm6b40fb4Bj896B38t2b41BqJfcd2c395Bj7e2a687E21Ct
    BGJHz0uCn"),
  ("coptic qaac copt", "BBmdLCgD756"),
  ("cuneiform xsux", "DAU0ZlCuD214bFf"),
  ("cypriot cprt", "CUFc5201B7113020"),
  ("cyprominoan cpmn", "DFAoCq"),
  ("cyrillic cyrl", "BCgDo2EoGJsaEg0C40EMnvBGX4CnXYm1CJV4Bpx0"),
  ("deseret dsrt", "CTCwC7"),
  ("devanagari deva", "CM0C84e2pBRPcvBFEo9"),
  ("divesakuru diak", "CYW862027111t112b99"),
  ("dogra dogr", "CYP4Bn"),
  ("duployan dupl", "ERLcCy5c387923"),
  ("egyptianhieroglyphs egyp", "DFDsBEtaEGy"),
  ("elbasan elba", "CTK0B3"),
  ("elymaic elym", "CWJcm"),
  ("ethiopic ethi", "EY0C0132610132B4132w132610132e1Bk132Bu2v3pHC6m9616*6BIFu525259616DIQ1613111e"),
  ("garay gara", "CVQoB13s81"),
  ("georgian geor", "EO8B110502B613DE8B622ELkB11050"),
  ("glagolitic glag", "MAwCnEPDs61g261114"),
  ("gothic goth", "CSX4q"),
  ("grantha gran", "CXFk317212l1611142821222060562634"),
  ("greek grek", "Yg3122310401012101j1BqefGWu4Be444Cc0Iwl252B1252710*21u2Bg1e1d251i2218I70BLV20XMiC6h0CEZrBx"),
  ("gujarati gujr", "CWp218121l16111429121220f32b76"),
  ("gunjalagondi gong", "DABc5111B0111579"),
  ("gurmukhi guru", "CT5215412l1611*2201441223073107g"),
  ("gurungkhema gukh", "DSO8Bl"),
  ("han hani", "MSop1CgcFxBb010p8e3BAsHB3BsWL3YIwK52CxBGA81c1BNKeBTQnwELd6G52GE1eHZkfR9CQiP1BPuFH65EMf"),
  ("hangul hang", "EQwH3IGm1H5ClD5uBtuBGNdsRvLYbcm4BcKVwu35252522"),
  ("hanifirohingya rohg", "CVOwB389"),
  ("hanunoo hano", "GIgk"),
  ("hatran hatr", "CULki1154"),
  ("hebrew hebr", "BNlBi8q45CPBcp1410111119"),
  ("hiragana hira", "NF5Cd62EAW9Hyi0t2RRx0"),
  ("imperialaramaic armi", "CUH4l18"),
  ("inherited zinh qaai",
    "VcD3Hp1Mkaq0Ug3ETfuO921c16406031FiBrOk1FewEE93Cz1CEElfgdBB30Ga0EMa0BZJ8B92mP42h726u3BGVDuGn"),
  ("inscriptionalpahlavi phli", "CVDci57"),
  ("inscriptionalparthian prti", "CVCgl27"),
  ("javanese java", "BUJcC52941"),
  ("kaithi kthi", "CWNsBua0"),
  ("kannada knda", "DKwc121m19142812137161132912"),
  ("katakana kana", "NHtCh22GofFsBa1CfCDV291B8BWFu3161110Hz2Be0e3"),
  ("kawi", "DAMwg1B43s"),
  ("kayahli kali", "BUFsB910"),
  ("kharoshthi khar", "CUTk31157121s224978"),
  ("khitansmallscript kits", "DWQ40HKrN1B50"),
  ("khmer khmr", "GL4Cl2969Niv"),
  ("khojki khoj", "CWYgh1Ba"),
  ("khudawadi sind", "CXDcBm59"),
  ("kiratrai krai", "DVXcBl"),
  ("lao laoo", "DZ5110141n101m2410161923"),
  ("latin latn",
    "Btp6pBb0f05m1u1MgB34HDnB16Bc535c1BxBtH3K90d0gcDx160r0hB4CZ3vBHO2Ct3Bu211017ldWoB61813VTy6BD6p6pCFx51B518CGWtu65"),
  ("lepcha lepc", "HR4Bj3e32"),
  ("limbu limb", "GVsu1b4b403b"),
  ("lineara lina", "CTR4Im9la7"),
  ("linearb linb", "CSAgb1p1i111e2dyDe"),
  ("lisu", "BTC0BbBHOg0"),
  ("lycian lyci", "CSS8s"),
  ("lydian lydi", "CUNcp50"),
  ("mahajani mahj", "CWTkB2"),
  ("makasar maka", "DAM0o"),
  ("malayalam mlym", "DOgc121Be12154f2p"),
  ("mandaic mand", "CGor20"),
  ("manichaean mani", "CUYwB24b"),
  ("marchen marc", "CZUov2l1d"),
  ("masaramgondi gonm", "CZYo6111B730111889"),
  ("medefaidrin medf", "DWEgCi"),
  ("meeteimayek mtei", "BUT4mFlB929"),
  ("mendekikakui mend", "FDM8Fg2f"),
  ("meroiticcursive merc", "CUQwn4j2B9"),
  ("meroitichieroglyphs mero", "CUQ0v"),
  ("miao plrd", "DWJsC24Bk7g"),
  ("modi", "CYAwBwb9"),
  ("mongolian mong", "GOo1201j6Cg7B6CRK5c"),
  ("mro mroo", "DVC0u1941"),
  ("multani mult", "CXC0610131e1a"),
  ("myanmar mymr", "EJsEfBPXsuCpvBDQ8j"),
  ("nabataean nbat", "CUIwu88"),
  ("nagmundari nagm", "FCPkB5"),
  ("nandinagari nand", "CZAo72B92a"),
  ("newtailue talu", "GZcB74p6a31"),
  ("newa", "CXMoCj14"),
  ("nko nkoo", "CD4Bm22"),
  ("nushu nshu", "DWQ10RY6Kz"),
  ("nyiakengpuachuehmong hmnp", "FBOgB83d2941"),
  ("ogham ogam", "GE0s"),
  ("olchiki olck", "HTcBb"),
  ("olonal onao", "FCWoB640"),
  ("oldhungarian hung", "CVLcBedBe75"),
  ("olditalic ital", "CSVsz92"),
  ("oldnortharabian narb", "CUX4v"),
  ("oldpermic perm", "CSY0B6"),
  ("oldpersian xpeo", "CTA8z4d"),
  ("oldsogdian sogo", "CWD4B3"),
  ("oldsoutharabian sarb", "CUW8v"),
  ("oldturkic orkh", "CVHsC0"),
  ("olduyghur ougr", "CWG8p"),
  ("oriya orya", "DA9217212l1611142821227241142h"),
  ("osage osge", "CTHsz4z"),
  ("osmanya osma", "CTGgt29"),
  ("pahawhhmong hmng", "DVHcBxa9161k5i"),
  ("palmyrene palm", "CUI0v"),
  ("paucinhau pauc", "CZIoBk"),
  ("phagspa phag", "BUAgBj"),
  ("phoenician phnx", "CUMgr30"),
  ("psalterpahlavi phlp", "CVE8h73c6"),
  ("rejang rjng", "BUH4zb0"),
  ("runic runr", "GEwC23a"),
  ("samaritan samr", "CEwB92e"),
  ("saurashtra saur", "BUC8Bx8b"),
  ("sharada shrd", "CWUwCn"),
  ("shavian shaw", "CTF4Bb"),
  ("siddham sidd", "CXXcBh2B1"),
  ("signwriting sgnw", "EZCgS3f41e"),
  ("sinhala sinh", "DS121h3n181026304510176922CTCcj"),
  ("sogdian sogd", "CWEgB5"),
  ("sorasompeng sora", "CWQ0o79"),
  ("soyombo soyo", "CZFkCa"),
  ("sundanese sund", "HNkBrH47"),
  ("sunuwar sunu", "CZPsxe9"),
  ("sylotinagri sylo", "BTYoB8"),
  ("syriac syrc", "BXsd1Bn22Hka"),
  ("tagalog tglg", "GHkl90"),
  ("tagbanwa tagb", "GK8c1211"),
  ("taile tale", "GY0t24"),
  ("taitham lana", "HDsBq1s2a696d"),
  ("taiviet tavt", "BUQgBuo4"),
  ("takri takr", "CYEgBl69"),
  ("tamil taml", "DDu115321331101131323b4432132060ekCXL1Bdd0"),
  ("tangsa tnsa", "DVDcC619"),
  ("tangut tang", "DWQ00vGOf8VbO88"),
  ("telugu telu", "DHcc121m1f281213711220232978"),
  ("thaana thaa", "CBcBd"),
  ("thai", "DVlBl5r"),
  ("tibetan tibt", "ECoBz1z4B21z1e1641"),
  ("tifinagh tfng", "MJcBj71e0"),
  ("tirhuta tirh", "CXQ8Bz89"),
  ("todhri todr", "CTPcBf"),
  ("toto", "FBZku"),
  ("tulutigalari tutg", "CXJ4910201B119102013191181"),
  ("ugaritic ugar", "CSZct10"),
  ("vai vaii", "BTDcIb"),
  ("vithkuqi vith", "CTN4a1e16111a1e1611"),
  ("wancho wcho", "FCAwBl50"),
  ("warangciti wara", "CYTkCac0"),
  ("yezidi yezi", "CVZkB51221"),
  ("yi yiii", "BRTsBGc3Bi"),
  ("zanabazarsquare zanb", "CZDcBz")]

/-- Names of scripts, with the code points they share as gaps and lengths in base 36. -/
def sharedScripts : List (String × String) := [
  ("avst cari copt dupl elba geor glag goth grek gong hani latn lydi mahj perm shaw", "F30"),
  ("beng cyrl deva latn lisu thai toto", "Tg0"),
  ("bopo latn", "Tr012d0"),
  ("latn lisu", "Tx0"),
  ("latn thai", "U70"),
  ("cher copt cyrl grek latn perm sunu tale", "Vc0"),
  ("cher cyrl grek latn osge sunu tale todr", "Vd0"),
  ("cher cyrl latn tfng", "Ve0"),
  ("glag latn sunu syrc thai", "Vf0"),
  ("aghb cher copt cyrl goth grek latn osge syrc tfng todr", "Vg0"),
  ("copt elba glag goth kana latn", "Vh0"),
  ("cyrl grek latn perm tfng", "Vi0"),
  ("copt dupl hebr latn perm syrc tale tfng todr", "Vj0"),
  ("armn cyrl dupl goth grek hebr latn perm syrc tale tfng", "Vk0"),
  ("latn tfng", "Vl0"),
  ("dupl latn syrc", "Vm0"),
  ("cher cyrl latn osge", "Vn0"),
  ("cher latn tale", "Vo0"),
  ("latn sunu", "Vp020"),
  ("ethi latn", "Vq0"),
  ("cyrl latn todr", "Vt0"),
  ("grek latn perm todr", "Vv0"),
  ("cher dupl kana latn syrc tfng", "Wb0"),
  ("cher dupl latn syrc", "Wc0"),
  ("latn syrc", "Wd080"),
  ("latn sunu syrc", "Wl0"),
  ("cher latn syrc", "Wo0"),
  ("aghb cher goth latn sunu syrc thai", "Wp0"),
  ("grek", "X6020HGa1"),
  ("latn osge", "Xs0"),
  ("aghb latn todr", "Xy0"),
  ("latn", "Y3c"),
  ("copt grek", "Yk1"),
  ("cyrl perm", "BG30"),
  ("cyrl glag", "BG4020LKr0BGWj0"),
  ("cyrl latn", "BG51"),
  ("armn geor glag", "BNd0"),
  ("arab gara rohg nkoo syrc thaa yezi", "BR00e0"),
  ("arab syrc thaa", "BRg0"),
  ("adlm arab gara rohg nkoo syrc thaa yezi", "BRj0"),
  ("adlm arab rohg mand mani ougr phlp sogd syrc", "BSg0"),
  ("arab syrc", "BSraq0"),
  ("arab thaa yezi", "BTc9"),
  ("arab rohg", "BWk0"),
  ("beng deva gran gujr guru knda latn mlym nand newa orya shrd taml telu tirh", "CO90"),
  ("beng deva gran gujr guru knda latn mlym newa orya taml telu tirh", "COa0"),
  ("beng deva dogr gran gujr gong guru knda sind mahj mlym gonm nand onao orya sinh sylo takr taml telu tirh", "COs0"),
  ("beng deva dogr gran gujr gong guru gukh knda sind limb mahj mlym gonm nand onao orya sinh sylo takr taml telu
    tirh",
    "COt0"),
  ("deva dogr kthi mahj", "COu9"),
  ("beng cakm sylo", "CSe9"),
  ("guru mult", "CVy9"),
  ("gujr khoj", "CZi9"),
  ("gran taml", "DGmdCTYl010Bj1DLf110"),
  ("knda nand tutg", "DNq9"),
  ("cakm mymr tale", "ELk9"),
  ("geor glag latn", "EQr0"),
  ("runr", "GGz2"),
  ("buhd hano tglg tagb", "GJ11"),
  ("mong phag", "GOq110"),
  ("beng deva gran knda", "HWw010"),
  ("deva", "HWx0206021353013"),
  ("deva gran knda", "HWz0"),
  ("beng deva newa telu tirh", "HX10"),
  ("beng deva telu", "HX20"),
  ("deva newa shrd", "HX30"),
  ("beng deva newa telu", "HX40"),
  ("deva shrd", "HX502120"),
  ("deva knda mlym orya taml telu", "HX60"),
  ("beng deva", "HXd0j1"),
  ("deva newa tirh", "HXe0"),
  ("deva nand newa", "HXl0"),
  ("beng deva shrd", "HXm0"),
  ("deva newa", "HXn0"),
  ("beng deva newa shrd", "HXp0"),
  ("beng deva gran knda mlym nand orya sinh telu tirh tutg", "HXu0"),
  ("deva gran", "HXv041"),
  ("deva gran knda tutg", "HXw0"),
  ("beng", "HXz0"),
  ("nand", "HY20"),
  ("cyrl latn syrc", "IF40"),
  ("syrc", "IF60"),
  ("latn mong phag", "IUv0"),
  ("adlm arab", "IVr0"),
  ("cari geor glag lyci hung orkh", "IW20"),
  ("cari grek mero hung", "IW50"),
  ("deva gran latn", "JA80"),
  ("copt latn", "MPr0"),
  ("avst orkh", "MQg0"),
  ("avst cari geor kthi lydi hung samr", "MQh0"),
  ("dupl", "MQs0EEYz3"),
  ("adlm arab hung", "MQx0"),
  ("hani tang", "NCwfNr0"),
  ("bopo hani hang hira kana mong yiii", "NDd0"),
  ("bopo hani hang hira kana mong phag yiii", "NDe0"),
  ("bopo hani hang hira kana", "NDf0f083g060CEJ91"),
  ("hani", "NDi0Bj1JcfwB1BmB3BkBcfbBf0Cgoa4CouEJPthILi1"),
  ("bopo hani hang hira kana mong tibt yiii", "NDk1"),
  ("bopo hani hang hira kana lisu mong tibt yiii", "NDm1"),
  ("bopo hani hang hira kana yiii", "NDo527G70CELp4"),
  ("bopo hani", "NEi3"),
  ("hira kana", "NEp4Cr330Cj0CEM30B91"),
  ("hani hira kana", "NF01"),
  ("hani latn", "BTRk7"),
  ("deva dogr gujr guru kthi knda khoj sind mahj mlym modi nand shrd takr tirh tutg", "BUA02"),
  ("deva dogr gujr guru kthi knda khoj sind mahj modi nand shrd takr tirh tutg", "BUA32"),
  ("deva dogr gujr guru kthi khoj sind mahj modi takr tirh", "BUA6110"),
  ("deva dogr gujr guru kthi khoj sind mahj modi shrd takr tirh", "BUA80"),
  ("beng deva tutg", "BUFd0"),
  ("deva taml", "BUFf0"),
  ("kali latn mymr", "BUH20"),
  ("bugi java", "BULj0"),
  ("arab nkoo", "CRGu1"),
  ("arab thaa", "CRLu0a0"),
  ("cprt cpmn linb", "CSHk1"),
  ("cprt linb", "CSHm0Bg8"),
  ("cprt lina linb", "CSHrB8"),
  ("arab copt", "CSUwr"),
  ("mani ougr", "CVAa0")]

end Stencil.Pattern.Table
